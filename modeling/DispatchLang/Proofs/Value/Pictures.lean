import DispatchLang.Proofs.Value.Bisimilarity
import DispatchLang.Value.Render

/-!
# Pictures of values

A value may be inside itself, so unfolding it need not end. What is shown of a value is the part of its unfolding that
ends wherever an array or object is met inside itself: a finite tree, a picture of the value. What is merely shared is
not cut off, since it is not met inside itself.

Where a container is met inside itself is said by paths: the path leads to the container, and a shorter path that it goes
on from leads to the same one. Nothing else is known about pictures than what is at the ends of paths
(`Picture.Depicts`), but this is enough, as there is only one picture of a value. Its text is found by plain recursion, and
it is the text of the value.

## Main definitions

* `Picture`: a finite tree of outlines, parts of which may be cut off.
* `Value.Recurs`: at the end of a path a container is met inside itself.
* `Picture.Depicts`: a picture shows the unfolding of a value, cut exactly where a container is met inside itself.

## Main results

* `Picture.Depicts.unique`: there is only one picture of a value.
* `Value.exists_picture`: there is one, and its text is that of the value.
* `Picture.Depicts.plainText`: if nothing is met inside itself, this is the text of the whole unfolding.
-/

namespace DispatchLang

/-! ## Frames and pictures -/

/-- What is shown of a value apart from the values inside it. -/
inductive Outline where
  /-- A string. -/
  | string (text : String)
  /-- Another value that has no values inside it. -/
  | plain (text : String)
  /-- An array. -/
  | array
  /-- An object with its keys. -/
  | object (keys : List String)
  /-- An instance with the names of its fields. -/
  | inst (typeName : String) (variant : Option String) (names : List String)

namespace Outline

def named (names texts : List String) : List String := names.zipWith (fun name text => name ++ ": " ++ text) texts

def fill : Outline → List String → String
  | .string text, _ => "\"" ++ text ++ "\""
  | .plain text, _ => text
  | .array, texts => Value.arrayText texts
  | .object keys, texts => Value.objectText (named keys texts)
  | .inst typeName variant names, texts => Value.instText typeName variant (named names texts)

end Outline

/-- A finite tree of outlines, parts of which may be cut off. -/
inductive Picture where
  /-- What is inside has been cut off. -/
  | cut
  /-- An outline with what is shown inside it. -/
  | shown (outline : Outline) (inside : List Picture)

namespace Picture

mutual

def text : Picture → String
  | .cut => Value.cycleMark
  | .shown outline inside => outline.fill (texts inside)

def texts : List Picture → List String
  | [] => []
  | picture :: pictures => text picture :: texts pictures

end

/-- The text of a picture by itself. -/
def alone : Picture → String
  | .shown (.string text) _ => text
  | picture => picture.text

/-- What is at the end of a path in a picture. -/
def follow? : List Nat → Picture → Option Picture
  | [], picture => some picture
  | _ :: _, .cut => none
  | i :: path, .shown _ inside => inside[i]?.bind (follow? path)

end Picture

namespace Value

variable (heap : Heap)

/-- What is shown of a value apart from the values inside it. Where there are none, it is the whole text. -/
def outline : Value → Outline
  | .string text => .string text
  | .array _ => .array
  | .object address => .object ((heap.entries address).map Prod.fst)
  | .inst _ typeName variant fields => .inst typeName variant (fields.map Prod.fst)
  | value => .plain (value.repr heap)

def inside : Value → List Value
  | .array address => (heap.items address).toList
  | .object address => (heap.entries address).map Prod.snd
  | .inst _ _ _ fields => fields.map Prod.snd
  | _ => []

/-- What is at the end of a path in the unfolding of a value. -/
def follow? : List Nat → Value → Option Value
  | [], value => some value
  | i :: path, value => (value.inside heap)[i]?.bind (follow? path)

/-- The container that a path leads to. -/
def met? (path : List Nat) (value : Value) : Option Nat := (value.follow? heap path).bind address?

/-- A path leads to a container that has been met on the way. Those in `opened` count as met from the beginning. -/
def Recurs (opened : List Nat) (value : Value) (path : List Nat) : Prop :=
  ∃ address, value.met? heap path = some address ∧
    (address ∈ opened ∨ ∃ n < path.length, value.met? heap (path.take n) = some address)

/-- The text of a value, if it unfolds to no more than the given depth. Nothing is ever cut off. -/
def plainText : Nat → Value → Option String
  | 0, _ => none
  | n + 1, value => ((value.inside heap).mapM (plainText n)).map (value.outline heap).fill

end Value

/-- From no container a path leads back to it. -/
def Heap.Acyclic (heap : Heap) : Prop := ∀ (container : Value) (address : Nat), container.address? = some address →
  ∀ path ≠ [], container.met? heap path ≠ some address

/-- A picture shows the unfolding of a value, cut exactly where a container is met inside itself. -/
structure Picture.Depicts (heap : Heap) (opened : List Nat) (value : Value) (picture : Picture) : Prop where
  /-- Nothing is shown inside a container that is met inside itself. -/
  hidden : ∀ (path : List Nat) (n : Nat), n < path.length → value.Recurs heap opened (path.take n) →
    picture.follow? path = none
  /-- Up to there paths lead as far as in the value, and only there something is cut off. -/
  shown : ∀ path : List Nat, (∀ n < path.length, ¬ value.Recurs heap opened (path.take n)) →
    Option.Rel (fun (w : Value) (part : Picture) => match part with
      | .cut => value.Recurs heap opened path
      | .shown outline _ => ¬ value.Recurs heap opened path ∧ outline = w.outline heap)
      (value.follow? heap path) (picture.follow? path)

/-! ## One step of unfolding -/

namespace Value

variable {heap : Heap} {opened : List Nat} {value w : Value} {path : List Nat} {i : Nat}

theorem recurs_nil : value.Recurs heap opened [] ↔ ∃ address, value.address? = some address ∧ address ∈ opened := by
  refine exists_congr fun address => and_congr_right fun _ => ?_
  exact or_iff_left fun ⟨n, hn, _⟩ => absurd hn (Nat.not_lt_zero n)

theorem not_recurs_of_address? (h : value.address? = none) : ¬ value.Recurs heap opened [] := by
  rintro ⟨address, hmet, -⟩
  rw [met?, follow?, Option.bind_some, h] at hmet
  cases hmet

/-- A container that is unfolded counts as met in what is inside it. -/
theorem recurs_cons (h : (value.inside heap)[i]? = some w) :
    value.Recurs heap opened (i :: path) ↔ w.Recurs heap (value.address?.toList ++ opened) path := by
  have hmet (path : List Nat) : value.met? heap (i :: path) = w.met? heap path := by
    rw [met?, met?, follow?, h, Option.bind_some]
  refine exists_congr fun address => and_congr (by rw [hmet]) ?_
  rw [List.mem_append, Option.mem_toList, or_comm (a := value.address? = some address), or_assoc]
  refine or_congr_right ⟨?_, ?_⟩
  · rintro ⟨n, hn, hn'⟩
    cases n with
    | zero => exact .inl hn'
    | succ n => exact .inr ⟨n, Nat.lt_of_succ_lt_succ hn, (hmet _).symm.trans hn'⟩
  · rintro (hself | ⟨n, hn, hn'⟩)
    · exact ⟨0, Nat.succ_pos _, hself⟩
    · exact ⟨n + 1, Nat.succ_lt_succ hn, (hmet _).trans hn'⟩

/-- A path that goes on from another one goes on from what that one leads to. -/
theorem follow?_append (path rest : List Nat) :
    value.follow? heap (path ++ rest) = (value.follow? heap path).bind (follow? heap rest) := by
  induction path generalizing value with
  | nil => rfl
  | cons i path ih =>
    rw [List.cons_append, follow?, follow?]
    cases (value.inside heap)[i]? with
    | none => rfl
    | some w => exact ih

/-- In a heap without cycles no container is met inside itself. -/
theorem not_recurs_of_acyclic (h : heap.Acyclic) : ¬ value.Recurs heap [] path := by
  rintro ⟨address, hmet, hopen | ⟨n, hn, hearlier⟩⟩
  · cases hopen
  · obtain ⟨container, hcontainer, haddress⟩ := Option.bind_eq_some_iff.mp hearlier
    refine h container address haddress (path.drop n) (List.ne_nil_of_length_pos ?_) ?_
    · rw [List.length_drop]
      exact Nat.sub_pos_of_lt hn
    · rw [← List.take_append_drop n path, met?, follow?_append, hcontainer] at hmet
      exact hmet

end Value

namespace Picture

variable {heap : Heap} {opened : List Nat} {value : Value} {outline : Outline} {pictures : List Picture}

theorem depicts_cut : Depicts heap opened value .cut ↔ value.Recurs heap opened [] := by
  constructor
  · intro h
    cases h.shown [] fun n hn => absurd hn (Nat.not_lt_zero n) with
    | some h => exact h
  · intro h
    refine ⟨fun path n hn _ => ?_, fun path hpath => ?_⟩
    · cases path with
      | nil => cases hn
      | cons i path => rfl
    · cases path with
      | nil => exact .some h
      | cons i path => exact absurd h (hpath 0 (Nat.succ_pos _))

theorem depicts_shown :
    Depicts heap opened value (.shown outline pictures) ↔
      (¬ value.Recurs heap opened [] ∧ outline = value.outline heap) ∧
        List.Forall₂ (Depicts heap (value.address?.toList ++ opened)) (value.inside heap) pictures := by
  rw [forall₂_iff_rel]
  constructor
  · intro h
    have hhead : ¬ value.Recurs heap opened [] ∧ outline = value.outline heap := by
      cases h.shown [] fun n hn => absurd hn (Nat.not_lt_zero n) with
      | some h => exact h
    refine ⟨hhead, fun i => ?_⟩
    have hreached := h.shown [i] fun n hn => by
      rw [Nat.lt_one_iff.mp hn]
      exact hhead.1
    rw [Value.follow?, follow?] at hreached
    cases hw : (value.inside heap)[i]? with
    | none =>
      rw [hw, Option.bind_none] at hreached
      cases hp : pictures[i]? with
      | none => exact .none
      | some p =>
        rw [hp] at hreached
        nomatch hreached
    | some w =>
      rw [hw] at hreached
      cases hp : pictures[i]? with
      | none =>
        rw [hp] at hreached
        nomatch hreached
      | some p =>
        refine .some ⟨fun path n hn hrecurs => ?_, fun path hpath => ?_⟩
        · have hhidden := h.hidden (i :: path) (n + 1) (Nat.succ_lt_succ hn) ((Value.recurs_cons hw).mpr hrecurs)
          rwa [follow?, hp] at hhidden
        · have hshown := h.shown (i :: path) fun n hn => by
            cases n with
            | zero => exact hhead.1
            | succ n => exact fun hr => hpath n (Nat.lt_of_succ_lt_succ hn) ((Value.recurs_cons hw).mp hr)
          rw [Value.follow?, follow?, hw, hp] at hshown
          simpa only [Value.recurs_cons hw, Option.bind_some] using hshown
  · rintro ⟨hhead, hinside⟩
    refine ⟨fun path n hn hrecurs => ?_, fun path hpath => ?_⟩
    · cases path with
      | nil => cases hn
      | cons i path =>
        cases n with
        | zero => exact absurd hrecurs hhead.1
        | succ n =>
          have hi := hinside i
          rw [follow?]
          generalize hp : pictures[i]? = p, hw : (value.inside heap)[i]? = w at hi
          cases hi with
          | none => rfl
          | some h => exact h.hidden path n (Nat.lt_of_succ_lt_succ hn) ((Value.recurs_cons hw).mp hrecurs)
    · cases path with
      | nil => exact .some hhead
      | cons i path =>
        have hi := hinside i
        rw [Value.follow?, follow?]
        generalize hp : pictures[i]? = p, hw : (value.inside heap)[i]? = w at hi
        cases hi with
        | none => exact .none
        | some h =>
          have hshown := h.shown path fun n hn hr =>
            hpath (n + 1) (Nat.succ_lt_succ hn) ((Value.recurs_cons hw).mpr hr)
          simpa only [Value.recurs_cons hw, Option.bind_some] using hshown

end Picture

/-! ## Only one picture -/

namespace Picture

variable {heap : Heap}

mutual

theorem Depicts.unique {opened : List Nat} {value : Value} (picture : Picture) {other : Picture}
    (h : picture.Depicts heap opened value) (h' : other.Depicts heap opened value) : picture = other := by
  cases picture with
  | cut =>
    cases other with
    | cut => rfl
    | shown outline inside => exact absurd (depicts_cut.mp h) (depicts_shown.mp h').1.1
  | shown outline inside =>
    obtain ⟨⟨hrecurs, hout⟩, hinside⟩ := depicts_shown.mp h
    cases other with
    | cut => exact absurd (depicts_cut.mp h') hrecurs
    | shown outline' inside' =>
      obtain ⟨⟨-, hout'⟩, hinside'⟩ := depicts_shown.mp h'
      rw [hout, hout', unique_inside inside hinside hinside']

theorem unique_inside {opened : List Nat} {values : List Value} (pictures : List Picture) {others : List Picture}
    (h : List.Forall₂ (Depicts heap opened) values pictures) (h' : List.Forall₂ (Depicts heap opened) values others) :
    pictures = others := by
  cases pictures with
  | nil =>
    cases h
    cases h'
    rfl
  | cons picture pictures =>
    cases h with
    | cons h hs =>
      cases h' with
      | cons h' hs' => rw [Depicts.unique picture h h', unique_inside pictures hs hs']

end

/-! ## Nothing that is cut off -/

/-- Where no container is met inside itself, nothing is cut off. -/
theorem Depicts.follow?_ne_cut {opened : List Nat} {value : Value} {picture : Picture}
    (h : picture.Depicts heap opened value) (hr : ∀ path, ¬ value.Recurs heap opened path) (path : List Nat) :
    picture.follow? path ≠ some .cut := by
  intro hcut
  have hshown := h.shown path fun n _ => hr _
  rw [hcut] at hshown
  generalize value.follow? heap path = found at hshown
  cases hshown with
  | some hrecurs => exact hr path hrecurs

mutual

/-- If nothing is met inside itself, the text of the picture is that of the whole unfolding. -/
theorem Depicts.plainText {opened : List Nat} {value : Value} (picture : Picture)
    (h : picture.Depicts heap opened value) (hr : ∀ path, ¬ value.Recurs heap opened path) :
    ∃ enough, ∀ n, enough ≤ n → value.plainText heap n = some picture.text := by
  cases picture with
  | cut => exact absurd (depicts_cut.mp h) (hr [])
  | shown outline inside =>
    obtain ⟨⟨-, rfl⟩, hinside⟩ := depicts_shown.mp h
    obtain ⟨enough, henough⟩ := plainTexts inside hinside fun w hw path hrecurs => by
      obtain ⟨i, hi⟩ := List.getElem?_of_mem hw
      exact hr (i :: path) ((Value.recurs_cons hi).mpr hrecurs)
    refine ⟨enough + 1, fun n hn => ?_⟩
    cases n with
    | zero => cases hn
    | succ n =>
      rw [Value.plainText, henough n (Nat.le_of_succ_le_succ hn)]
      rfl

theorem plainTexts {opened : List Nat} {values : List Value} (pictures : List Picture)
    (h : List.Forall₂ (Depicts heap opened) values pictures)
    (hr : ∀ w ∈ values, ∀ path, ¬ w.Recurs heap opened path) :
    ∃ enough, ∀ n, enough ≤ n → values.mapM (Value.plainText heap n) = some (texts pictures) := by
  cases pictures with
  | nil =>
    cases h
    exact ⟨0, fun _ _ => rfl⟩
  | cons picture pictures =>
    cases h with
    | cons h hs =>
      obtain ⟨hr, hrs⟩ := List.forall_mem_cons.mp hr
      obtain ⟨enough, henough⟩ := Depicts.plainText picture h hr
      obtain ⟨enough', henough'⟩ := plainTexts pictures hs hrs
      refine ⟨max enough enough', fun n hn => ?_⟩
      rw [List.mapM_cons, henough n (Nat.le_trans (Nat.le_max_left _ _) hn),
        henough' n (Nat.le_trans (Nat.le_max_right _ _) hn)]
      rfl

end

end Picture

/-! ## The picture of a value -/

def Heap.closedCells (heap : Heap) (opened : List Nat) : Nat := (Finset.range heap.size \ opened.toFinset).card

namespace Heap

variable {heap : Heap} {opened : List Nat} {address : Nat}

theorem closedCells_nil : heap.closedCells [] = heap.size := by
  rw [closedCells, List.toFinset_nil, Finset.sdiff_empty, Finset.card_range]

/-- With one more cell open fewer are left. -/
theorem closedCells_cons_lt (h : address < heap.size) (hnew : address ∉ opened) :
    heap.closedCells (address :: opened) < heap.closedCells opened := by
  have hmem : address ∈ Finset.range heap.size \ opened.toFinset :=
    Finset.mem_sdiff.mpr ⟨Finset.mem_range.mpr h, fun hin => hnew (List.mem_toFinset.mp hin)⟩
  rw [closedCells, closedCells, List.toFinset_cons, Finset.sdiff_insert]
  exact Finset.card_erase_lt_of_mem hmem

end Heap

namespace Value

variable {strategy : Strategy} {heap : Heap} {opened : List Nat} {c : Nat → String}

/-- A picture shows a value and has the text that the value has if containers have the texts `c`. -/
def Shows (heap : Heap) (opened : List Nat) (c : Nat → String) (value : Value) (picture : Picture) : Prop :=
  picture.text = value.reprWith c ∧ picture.Depicts heap opened value

theorem texts_of_shows {values : List Value} {pictures : List Picture}
    (h : List.Forall₂ (Shows heap opened c) values pictures) : Picture.texts pictures = values.map (reprWith c) := by
  induction h with
  | nil => rfl
  | cons h _ ih => rw [Picture.texts, h.1, ih, List.map_cons]

theorem fieldsWith_eq (c : Nat → String) (fields : List (String × Value)) :
    fieldsWith c fields = Outline.named (fields.map Prod.fst) ((fields.map Prod.snd).map (reprWith c)) := by
  induction fields with
  | nil => rfl
  | cons field fields ih =>
    rw [fieldsWith, ih]
    rfl

theorem exists_shows_of_inside {value : Value} (inner : Nat → String) (hr : ¬ value.Recurs heap opened [])
    (htext : (value.outline heap).fill ((value.inside heap).map (reprWith inner)) = value.reprWith c)
    (h : ∀ w ∈ value.inside heap, ∃ picture, Shows heap (value.address?.toList ++ opened) inner w picture) :
    ∃ picture, Shows heap opened c value picture := by
  obtain ⟨pictures, hpictures⟩ : ∃ pictures,
      List.Forall₂ (Shows heap (value.address?.toList ++ opened) inner) (value.inside heap) pictures := by
    generalize value.inside heap = values at h
    induction values with
    | nil => exact ⟨[], .nil⟩
    | cons w values ih =>
      obtain ⟨⟨picture, hpicture⟩, h⟩ := List.forall_mem_cons.mp h
      obtain ⟨pictures, hpictures⟩ := ih h
      exact ⟨picture :: pictures, .cons hpicture hpictures⟩
  refine ⟨.shown (value.outline heap) pictures, ?_, ?_⟩
  · rw [Picture.text, texts_of_shows hpictures, htext]
  · exact Picture.depicts_shown.mpr ⟨⟨hr, rfl⟩, hpictures.imp fun _ _ h => h.2⟩

def ContainersShown (strategy : Strategy) (heap : Heap) (opened : List Nat) (c : Nat → String) : Prop :=
  ∀ (container : Value) (address : Nat), container.Stored strategy heap → container.address? = some address →
    ∃ picture, Shows heap opened c container picture

mutual

theorem exists_shows (hc : ContainersShown strategy heap opened c) (value : Value) (h : value.Stored strategy heap) :
    ∃ picture, Shows heap opened c value picture := by
  cases value with
  | array address | object address => exact hc _ address h rfl
  | inst type typeName variant fields =>
    refine exists_shows_of_inside c (not_recurs_of_address? rfl) ?_ ?_
    · rw [outline, Outline.fill, inside, reprWith, fieldsWith_eq]
    · exact List.forall_mem_map.mpr (exists_shows_fields hc fields (stored_inst.mp h).2)
  | bool b =>
    refine exists_shows_of_inside c (not_recurs_of_address? rfl) ?_ (List.forall_mem_nil _)
    cases b <;> rfl
  | _ => exact exists_shows_of_inside c (not_recurs_of_address? rfl) rfl (List.forall_mem_nil _)

theorem exists_shows_fields (hc : ContainersShown strategy heap opened c) (fields : List (String × Value))
    (h : ∀ field ∈ fields, field.2.Stored strategy heap) :
    ∀ field ∈ fields, ∃ picture, Shows heap opened c field.2 picture := by
  cases fields with
  | nil => exact List.forall_mem_nil _
  | cons field fields =>
    obtain ⟨hfield, hfields⟩ := List.forall_mem_cons.mp h
    exact List.forall_mem_cons.mpr ⟨exists_shows hc field.2 hfield, exists_shows_fields hc fields hfields⟩

end

theorem containersShown (ht : heap.Tidy strategy) (n : Nat) : ∀ {opened : List Nat}, heap.closedCells opened < n →
    ContainersShown strategy heap opened (containerText heap n opened) := by
  induction n with
  | zero => exact fun hlt => absurd hlt (Nat.not_lt_zero _)
  | succ n ih =>
    intro opened hlt container address hstored haddress
    have hrecurs : container.Recurs heap opened [] ↔ address ∈ opened := by
      rw [recurs_nil, haddress]
      exact ⟨fun ⟨_, heq, hmem⟩ => Option.some.inj heq ▸ hmem, fun hmem => ⟨address, rfl, hmem⟩⟩
    by_cases hopen : address ∈ opened
    · refine ⟨.cut, ?_, Picture.depicts_cut.mpr (hrecurs.mpr hopen)⟩
      cases container with
      | array _ | object _ =>
        cases haddress
        rw [reprWith, containerText, if_pos (List.contains_iff_mem.mpr hopen), Picture.text]
      | _ => cases haddress
    have hclosed : ¬ opened.contains address = true := fun h => hopen (List.contains_iff_mem.mp h)
    have hinside (hlt' : address < heap.size) (w : Value) (hw : w.Stored strategy heap) :
        ∃ picture, Shows heap (address :: opened) (containerText heap n (address :: opened)) w picture :=
      exists_shows (ih (Nat.lt_of_lt_of_le (Heap.closedCells_cons_lt hlt' hopen) (Nat.le_of_lt_succ hlt))) w hw
    cases container with
    | array _ =>
      cases haddress
      obtain ⟨-, items, type, hcell⟩ := Heap.container?_eq_array hstored.placed
      refine exists_shows_of_inside (containerText heap n (address :: opened)) (hrecurs.not.mpr hopen) ?_ fun w hw =>
        hinside (Array.getElem?_eq_some_iff.mp hcell).1 w (ht.stored.items address w hw)
      rw [outline, inside, reprWith, containerText, if_neg hclosed, Heap.items, hcell]
      rfl
    | object _ =>
      cases haddress
      obtain ⟨-, entries, hcell⟩ := Heap.container?_eq_object hstored.placed
      refine exists_shows_of_inside (containerText heap n (address :: opened)) (hrecurs.not.mpr hopen) ?_ fun w hw => ?_
      · rw [outline, inside, reprWith, containerText, if_neg hclosed, Heap.entries, hcell, Outline.fill]
        dsimp only
        rw [fieldsWith_eq]
      · obtain ⟨entry, hentry, rfl⟩ := List.mem_map.mp hw
        exact hinside (Array.getElem?_eq_some_iff.mp hcell).1 _ (ht.stored.entries address entry hentry)
    | _ => cases haddress

theorem exists_picture (ht : heap.Tidy strategy) {value : Value} (h : value.Stored strategy heap) :
    ∃ picture : Picture, picture.Depicts heap [] value ∧ value.repr heap = picture.text ∧
      value.text heap = picture.alone := by
  have henough : heap.closedCells [] < heap.size + 1 := by
    rw [Heap.closedCells_nil]
    exact Nat.lt_succ_self _
  obtain ⟨picture, htext, hdepicts⟩ := exists_shows (containersShown ht (heap.size + 1) henough) value h
  refine ⟨picture, hdepicts, htext.symm, ?_⟩
  cases picture with
  | cut => exact absurd (Picture.depicts_cut.mp hdepicts) (by rw [recurs_nil]; simp)
  | shown outline inside =>
    obtain ⟨⟨-, rfl⟩, -⟩ := Picture.depicts_shown.mp hdepicts
    cases value with
    | string text => rfl
    | _ => exact htext.symm

end Value

end DispatchLang

import DispatchLang.Proofs.Grammar.Spans
import DispatchLang.Proofs.Typing.NodeVisits

/-!
# The side table

After a check the log of types becomes a table that is sorted by places. Sorting may lose something: of two nodes with
the same place only one would keep its type. But in a program that has been read no two nodes have the same place
(`Program.nodup_keys`), and every node that is not inside a quoted form is visited exactly once, unless a pattern is
found to be invalid. So the table has one type for each of these nodes, the one found when that node was visited, and
nothing else.

## Main results

* `CheckReport.table_perm`: a log without repeated places loses nothing when it becomes a table.
* `Checker.table_complete`: the table of a program that has been read has the type of every exposed node.
-/

namespace DispatchLang

/-! ## Places are distinct -/

namespace Node

variable {L : List Lexeme} {node n : Node} {nodes : List Node}

theorem exists_at?_of_mem_inside (node : Node) (h : n ∈ node.inside) : ∃ i path, Node.at? (i :: path) node = some n := by
  rw [inside_eq, mem_insideAll] at h
  obtain ⟨child, hchild, h⟩ := h
  obtain ⟨i, hi⟩ := List.mem_iff_getElem?.mp hchild
  rcases h with rfl | h
  · exact ⟨i, [], by rw [Node.at?, hi]; rfl⟩
  · obtain ⟨j, path, hpath⟩ := exists_at?_of_mem_inside child h
    exact ⟨i, j :: path, by rw [Node.at?, hi]; exact hpath⟩
termination_by sizeOf node
decreasing_by exact sizeOf_lt_of_mem_children hchild

theorem exists_at? (h : n = node ∨ n ∈ node.inside) : ∃ path, Node.at? path node = some n := by
  rcases h with rfl | h
  · exact ⟨[], rfl⟩
  · obtain ⟨i, path, hpath⟩ := exists_at?_of_mem_inside node h
    exact ⟨i :: path, hpath⟩

/-- If nodes stand apart, and each of them has only different places inside, then so do all of them together. -/
theorem nodup_keys_insideAll (hplaced : ∀ node ∈ nodes, node.Placed L)
    (hordered : nodes.Pairwise fun a b => a.span.stop ≤ b.span.start)
    (h : ∀ node ∈ nodes, ((node :: node.inside).map (·.span.key)).Nodup) :
    ((insideAll nodes).map (·.span.key)).Nodup := by
  induction nodes with
  | nil => exact List.nodup_nil
  | cons node nodes ih =>
    obtain ⟨hnode, hnodes⟩ := List.forall_mem_cons.mp h
    rw [insideAll, List.map_append]
    refine List.nodup_append.mpr ⟨hnode, ih (List.forall_mem_cons.mp hplaced).2 (List.pairwise_cons.mp hordered).2 hnodes,
      fun key hkey key' hkey' hsame => ?_⟩
    obtain ⟨a, ha, rfl⟩ := List.mem_map.mp hkey
    obtain ⟨b, hb, rfl⟩ := List.mem_map.mp hkey'
    obtain ⟨other, hother, hb⟩ := mem_insideAll.mp hb
    obtain ⟨j, hj⟩ := List.mem_iff_getElem?.mp hother
    obtain ⟨path, hpath⟩ := exists_at? (List.mem_cons.mp ha)
    obtain ⟨path', hpath'⟩ := exists_at? hb
    have hindex := index_eq_of_key (i := 0) (j := j + 1) hplaced hordered rfl hj hpath hpath' hsame
    exact absurd hindex (Nat.succ_ne_zero j).symm

/-- The nodes in a placed node have different places. -/
theorem Placed.nodup_keys (h : node.Placed L) : ((node :: node.inside).map (·.span.key)).Nodup := by
  induction h with
  | @intro node real children inside ordered ih =>
    have hplaced : node.Placed L := .intro real children inside ordered
    rw [List.map_cons, List.nodup_cons]
    refine ⟨fun hmem => ?_, ?_⟩
    · obtain ⟨n, hn, hkey⟩ := List.mem_map.mp hmem
      obtain ⟨i, path, hpath⟩ := exists_at?_of_mem_inside node hn
      exact absurd ((hplaced.at? hpath).2.2.2 hkey) (List.cons_ne_nil _ _)
    · rw [inside_eq]
      exact nodup_keys_insideAll children ordered ih

end Node

/-- The nodes of a program that has been read have different places. -/
theorem Program.nodup_keys {source : String} {program : Program} (h : Program.parse source = .ok program) :
    (program.nodes.map (·.span.key)).Nodup := by
  have hreads := Grammar.reads_program ((Token.scan source).length + 1) (.start (Token.scan source))
    (.start (Token.laid_scan source))
  rw [Program.parse, Grammar.parse] at h
  generalize Grammar.program ((Token.scan source).length + 1) (.start (Token.scan source)) = result at h hreads
  cases hreads with
  | refused shown => cases h
  | accepted among onward post =>
    obtain rfl := Except.ok.inj h
    exact Node.nodup_keys_insideAll (fun node hn => (post.lies node hn).placed) post.ordered fun node hn =>
      (post.lies node hn).placed.nodup_keys

/-! ## From the log to the table -/

namespace CheckReport

variable {log : List (NodeKey × TypeId)}

/-- Entries for different places are all kept. -/
theorem distinct_eq_self {previous : Option NodeKey} (hprevious : ∀ entry ∈ log, previous ≠ some entry.1)
    (h : (log.map Prod.fst).Nodup) : distinct previous log = log := by
  induction log generalizing previous with
  | nil => rfl
  | cons entry log ih =>
    rw [List.map_cons, List.nodup_cons] at h
    rw [distinct, if_neg (hprevious entry List.mem_cons_self), ih (fun other hother heq => ?_) h.2]
    exact h.1 (List.mem_map.mpr ⟨other, hother, (Option.some.inj heq).symm⟩)

/-- A log without repeated places loses nothing when it becomes a table. -/
theorem table_perm (h : (log.map Prod.fst).Nodup) : (table log).Perm log := by
  rw [table]
  generalize hsort : log.mergeSort _ = sorted
  have hsorted : sorted.Perm log := hsort ▸ List.mergeSort_perm _ _
  rw [@distinct_eq_self sorted none (fun _ _ h => nomatch h) ((hsorted.map Prod.fst).nodup_iff.mpr h)]
  exact hsorted

/-- In a list without repeated places every entry is found. -/
theorem lookup_of_mem {key : NodeKey} {type : TypeId} (h : (log.map Prod.fst).Nodup) (hmem : (key, type) ∈ log) :
    log.lookup key = some type := by
  induction log with
  | nil => cases hmem
  | cons entry log ih =>
    rw [List.map_cons, List.nodup_cons] at h
    rw [List.lookup_cons]
    rcases List.mem_cons.mp hmem with rfl | hmem
    · rw [beq_self_eq_true]
    · have hne : key ≠ entry.1 := by
        rintro rfl
        exact h.1 (List.mem_map.mpr ⟨_, hmem, rfl⟩)
      rw [beq_eq_false_iff_ne.mpr hne]
      exact ih h.2 hmem

end CheckReport

/-! ## Programs -/

/-- The types of statements are what visiting them finds. -/
theorem Check.inferPlaced_eq (nodes : List Node) (c : Checker) :
    (Check.inferPlaced nodes c).1 = (NodeVisit.inTurn nodes c).map fun v => (v.1.type v.2, v.1.node.span) := by
  induction nodes generalizing c with
  | nil => rfl
  | cons node nodes ih =>
    rw [NodeVisit.inTurn, List.map_cons, ← ih]
    rfl

theorem NodeVisit.inTurn_nodes (nodes : List Node) (c : Checker) : (inTurn nodes c).map (·.1.node) = nodes := by
  induction nodes generalizing c with
  | nil => rfl
  | cons node nodes ih => rw [inTurn, List.map_cons, ih]; rfl

/-- What begins is among the visits that take place. -/
theorem NodeVisit.Unfold.subset {vs all : List (NodeVisit × Checker)} (h : Unfold vs all) : vs ⊆ all := by
  induction h with
  | nil => exact fun _ => id
  | cons _ _ _ ih =>
    exact List.cons_subset.mpr ⟨List.mem_cons_self, fun v hv => List.mem_append_right _ (ih hv)⟩

/-- If no invalid pattern is found in a program that has been read, then the check consists of one visit to each node
that is not inside a quoted form, and the table has exactly one type for the place of each of them: the type that was
found when the node was visited. The types of the statements are those in the table. -/
theorem Checker.table_complete {source : String} {program : Program} (h : Program.parse source = .ok program)
    {c : Checker} (hc : c.inferred = [])
    (hclean : ∀ finding ∈ (c.check program).1.findings, finding.kind ≠ .invalidPattern) :
    (∃ visits, NodeVisit.Unfold (NodeVisit.inTurn program c) visits ∧ (visits.map fun v => v.1.node).Perm program.exposed ∧
      ∀ v ∈ visits, (c.check program).1.types.lookup v.1.node.span.key = some (v.1.type v.2)) ∧
    ((c.check program).1.types.map Prod.fst).Perm (program.exposed.map (·.span.key)) ∧
    ((c.check program).1.types.map Prod.fst).Nodup ∧
    (c.check program).1.statements.map (·.2) = program.map (·.span) ∧
    ∀ statement ∈ (c.check program).1.statements,
      (c.check program).1.types.lookup statement.2.key = some statement.1 := by
  have hsound : ∀ statement ∈ program, statement.Sound := Node.forall_nodes_iff.mp (Program.parse_wellFormed h).1
  obtain ⟨all, new, more, hall, hinferred, hfindings, hnew, hnodes⟩ := Check.Notes.inferPlaced (c := c) hsound
  rw [hc, List.append_nil] at hinferred
  have htypes : (c.check program).1.types = CheckReport.table new := congrArg CheckReport.table hinferred
  have hreported : (c.check program).1.findings = (more ++ c.findings).reverse := congrArg List.reverse hfindings
  have hstatements : (c.check program).1.statements = (NodeVisit.inTurn program c).map fun v => (v.1.type v.2, v.1.node.span) :=
    Check.inferPlaced_eq program c
  have hnodes := hnodes fun finding hf => hclean finding (by
    rw [hreported]
    exact List.mem_reverse.mpr (List.mem_append_left _ hf))
  -- The places in the log are those of the nodes, so none of them is repeated.
  have hkeys : (new.map Prod.fst).Perm (program.exposed.map (·.span.key)) := by
    refine (hnew.map Prod.fst).trans ?_
    rw [List.map_map]
    have hmap := hnodes.map fun node => node.span.key
    rwa [List.map_map] at hmap
  have hnodup : (new.map Prod.fst).Nodup :=
    hkeys.nodup_iff.mpr (((Node.exposedAll_sublist program).map _).nodup (Program.nodup_keys h))
  have htable := CheckReport.table_perm hnodup
  have hnodup' := (htable.map Prod.fst).nodup_iff.mpr hnodup
  have hfound : ∀ v ∈ all, (c.check program).1.types.lookup v.1.node.span.key = some (v.1.type v.2) := fun v hv => by
    rw [htypes]
    refine CheckReport.lookup_of_mem hnodup' (htable.mem_iff.mpr (hnew.mem_iff.mpr ?_))
    exact List.mem_map.mpr ⟨v, hv, rfl⟩
  refine ⟨⟨all, hall, hnodes, hfound⟩, ?_, ?_, ?_, fun statement hs => ?_⟩
  · rw [htypes]
    exact (htable.map Prod.fst).trans hkeys
  · rw [htypes]
    exact hnodup'
  · rw [hstatements, List.map_map]
    have hspans := congrArg (List.map Node.span) (NodeVisit.inTurn_nodes program c)
    rwa [List.map_map] at hspans
  · rw [hstatements] at hs
    obtain ⟨v, hv, rfl⟩ := List.mem_map.mp hs
    exact hfound v (hall.subset hv)

/-- A construction of an unknown type is matched against an unknown name, and then there is a match with a quoted form. -/
def unknownPattern : String := "P \x7b x: ?y \x7d := p; match [y] \x7b ?all => \x7b #(z) \x7d \x7d"

/-- The unknown names are reported. Still, of the eleven nodes only the one inside the quoted form has no type. -/
theorem unknownPattern_typed : ∃ program, Program.parse unknownPattern = .ok program ∧
    (∀ finding ∈ (Checker.initial.check program).1.findings, finding.kind ≠ .invalidPattern) ∧
    ((Checker.initial.check program).1.types.map Prod.fst).Perm (program.exposed.map (·.span.key)) ∧
    (Checker.initial.check program).1.findings.length = 2 ∧ program.exposed.length = 10 ∧ program.nodes.length = 11 := by
  have hinferred : Checker.initial.inferred = [] := List.isEmpty_iff.mp (by decide +kernel)
  have hevaluated : ((Program.parse unknownPattern).toOption.any fun program =>
      ((Checker.initial.check program).1.findings.all (·.kind ≠ .invalidPattern)) &&
        ((Checker.initial.check program).1.findings.length, program.exposed.length, program.nodes.length) ==
          (2, 10, 11)) = true := by decide +kernel
  cases hparse : Program.parse unknownPattern with
  | error e =>
    rw [hparse] at hevaluated
    cases hevaluated
  | ok program =>
    rw [hparse, Except.toOption, Option.any_some, Bool.and_eq_true, beq_iff_eq, Prod.mk.injEq, Prod.mk.injEq] at hevaluated
    obtain ⟨hclean, hfindings, hexposed, hnodes⟩ := hevaluated
    have hclean : ∀ finding ∈ (Checker.initial.check program).1.findings, finding.kind ≠ .invalidPattern :=
      fun finding hf => of_decide_eq_true (List.all_eq_true.mp hclean finding hf)
    have htable := Checker.table_complete hparse hinferred hclean
    exact ⟨program, rfl, hclean, htable.2.1, hfindings, hexposed, hnodes⟩

end DispatchLang

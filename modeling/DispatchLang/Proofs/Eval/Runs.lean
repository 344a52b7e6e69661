import DispatchLang.Eval.Session

/-!
# What computations give

Rules for running a computation in a given session: when a sequence gives a value, and how it goes on once it is known
what its first step does. Noting the place of an error matters to the error only, neither to a value nor to the session.

## Main results

* `Eval.bind_ok`: a sequence gives a value if its steps do.
* `Eval.bind_of_ok`, `Eval.bind_of_error`: how a sequence goes on.
* `Eval.bind_error`: a sequence halts where one of its steps does.
* `Eval.located_ok`, `Eval.located_error`: a computation whose errors get a place gives the same values and halts for the
  same reason.
-/

namespace DispatchLang.Eval

variable {α β : Type} {x : Eval α} {f : α → Eval β} {s t : Session}

theorem bind_ok {b : β} : (x >>= f) t = .ok b s ↔ ∃ a u, x t = .ok a u ∧ f a u = .ok b s := by
  change EStateM.bind x f t = .ok b s ↔ _
  rw [EStateM.bind]
  cases x t with
  | ok a u =>
    refine ⟨fun h => ⟨a, u, rfl, h⟩, ?_⟩
    rintro ⟨_, _, ⟨⟩, h⟩
    exact h
  | error e u => exact ⟨(nomatch ·), fun ⟨_, _, h, _⟩ => nomatch h⟩

theorem pure_ok {a b : α} : (Pure.pure a : Eval α) t = .ok b s ↔ a = b ∧ t = s := by
  change EStateM.Result.ok a t = .ok b s ↔ _
  rw [EStateM.Result.ok.injEq]

theorem bind_of_ok {a : α} (h : x s = .ok a t) : (x >>= f) s = f a t := by
  change EStateM.bind x f s = _
  rw [EStateM.bind, h]

theorem bind_of_error {e : Halt} (h : x s = .error e t) : (x >>= f) s = .error e t := by
  change EStateM.bind x f s = _
  rw [EStateM.bind, h]

/-- A sequence halts where one of its steps does. -/
theorem bind_error {e : Halt} :
    (x >>= f) t = .error e s ↔ x t = .error e s ∨ ∃ a u, x t = .ok a u ∧ f a u = .error e s := by
  cases hx : x t with
  | ok a u =>
    rw [bind_of_ok hx]
    constructor
    · intro h
      exact .inr ⟨a, u, rfl, h⟩
    · rintro (⟨⟨⟩⟩ | ⟨_, _, ⟨⟩, h⟩)
      exact h
  | error e' u =>
    rw [bind_of_error hx]
    constructor
    · rintro ⟨⟩
      exact .inl rfl
    · rintro (⟨⟨⟩⟩ | ⟨_, _, ⟨⟩, _⟩)
      rfl

theorem located_error {span : Span} {e : RuntimeError} {x : Eval α} (h : located span x t = .error (.error e) s) :
    ∃ e', x t = .error (.error e') s ∧ e = e'.withSpan span := by
  rw [located] at h
  split at h
  · next e' s' hx =>
    cases h
    exact ⟨e', hx, rfl⟩
  · next hother => exact absurd h (hother e s)

theorem located_ok {span : Span} {a : α} : located span x s = .ok a t ↔ x s = .ok a t := by
  rw [located]
  split
  · next h => rw [h]; exact ⟨nofun, nofun⟩
  · exact .rfl

end DispatchLang.Eval

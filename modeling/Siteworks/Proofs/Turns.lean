import Mathlib

/-!
# Steps taken in turn

Steps on a state, each with an answer. Two of them commute where it makes no difference to what they
answer and leave which one is taken first. Steps that commute with each other, taken in turn, answer
what each of them answers alone, and leave the same in every order.
-/

namespace Siteworks

variable {α β γ σ : Type}

/-- Take a step for each of some things in turn; the answers come in the same order. -/
def inTurn (step : α → σ → β × σ) : List α → σ → List β × σ
  | [], state => ([], state)
  | first :: rest, state =>
    let (answer, state) := step first state
    let (answers, state) := inTurn step rest state
    (answer :: answers, state)

/-- The steps for some things are taken before those for others. -/
theorem inTurn_append (step : α → σ → β × σ) (xs ys : List α) (state : σ) :
    inTurn step (xs ++ ys) state =
      ((inTurn step xs state).1 ++ (inTurn step ys (inTurn step xs state).2).1,
        (inTurn step ys (inTurn step xs state).2).2) := by
  induction xs generalizing state with
  | nil => rfl
  | cons x xs ih => simp only [List.cons_append, inTurn, ih]

/-- It makes no difference at a state which of two steps is taken first. -/
structure CommuteAt (f : σ → β × σ) (g : σ → γ × σ) (state : σ) : Prop where
  /-- The one answers the same. -/
  first : (f (g state).2).1 = (f state).1
  /-- The other answers the same. -/
  second : (g (f state).2).1 = (g state).1
  /-- The same is left. -/
  left : (f (g state).2).2 = (g (f state).2).2

namespace CommuteAt

variable {f : σ → β × σ} {g : σ → γ × σ} {state : σ}

/-- It makes no difference either way. -/
theorem symm (h : CommuteAt f g state) : CommuteAt g f state := ⟨h.second, h.first, h.left.symm⟩

/-- What always answers the same and changes nothing commutes with everything. -/
theorem const (b : β) (g : σ → γ × σ) (state : σ) : CommuteAt (fun s => (b, s)) g state :=
  ⟨rfl, rfl, rfl⟩

/-- What commutes with each of some steps commutes with all of them, taken in turn. -/
theorem inTurn {step : α → σ → γ × σ} {stable : σ → Prop} {xs : List α}
    (h : ∀ x ∈ xs, ∀ s, stable s → stable (step x s).2 ∧ CommuteAt f (step x) s)
    (hstate : stable state) : CommuteAt f (Siteworks.inTurn step xs) state := by
  induction xs generalizing state with
  | nil => exact ⟨rfl, rfl, rfl⟩
  | cons x xs ih =>
    obtain ⟨hnext, hfirst⟩ := h x List.mem_cons_self state hstate
    have hrest := ih (fun y hy => h y (List.mem_cons_of_mem _ hy)) hnext
    refine ⟨hrest.first.trans hfirst.first, ?_, ?_⟩
    · simp only [Siteworks.inTurn, hfirst.second, ← hfirst.left, hrest.second]
    · simp only [Siteworks.inTurn, ← hfirst.left, hrest.left]

end CommuteAt

/-- The steps for things that are apart commute at stable states, and lead to stable states. -/
structure Commuting (step : α → σ → β × σ) (apart : α → α → Prop) (stable : σ → Prop) : Prop where
  /-- No step leads away from the stable states. -/
  kept : ∀ x s, stable s → stable (step x s).2
  /-- The steps for things that are apart commute there. -/
  commute : ∀ x y s, stable s → apart x y → CommuteAt (step x) (step y) s

/-- Make something of the answers of a step. -/
def answering (f : β → γ) (step : σ → β × σ) (state : σ) : γ × σ :=
  (f (step state).1, (step state).2)

/-- Something is made of each answer of steps taken in turn. -/
theorem inTurn_answering (f : β → γ) (step : α → σ → β × σ) (xs : List α) (state : σ) :
    inTurn (fun x => answering f (step x)) xs state = answering (List.map f) (inTurn step xs) state := by
  induction xs generalizing state with
  | nil => rfl
  | cons x xs ih => simp only [inTurn, answering, ih, List.map_cons]

namespace Commuting

variable {step : α → σ → β × σ} {apart : α → α → Prop} {stable : σ → Prop} {state : σ}

/-- Whatever is made of the answers, steps commute. -/
theorem answering (h : Commuting step apart stable) (f : β → γ) :
    Commuting (fun x => Siteworks.answering f (step x)) apart stable := by
  refine ⟨h.kept, fun x y s hs hxy => ?_⟩
  have hcommute := h.commute x y s hs hxy
  exact ⟨congrArg f hcommute.first, congrArg f hcommute.second, hcommute.left⟩

/-- Steps that change nothing commute. -/
theorem of_left_eq (apart : α → α → Prop) (h : ∀ x, (step x state).2 = state) :
    Commuting step apart (· = state) := by
  refine ⟨fun x s hs => ?_, fun x y s hs _ => ?_⟩
  · rw [hs, h x]
  · subst hs
    exact ⟨by rw [h y], by rw [h x], by rw [h x, h y, h x]⟩

/-- Steps commute at a state too from which they do what they do from a stable one. -/
theorem extend (h : Commuting step apart stable) {other : σ} (hother : stable other)
    (hsame : ∀ x, step x state = step x other) :
    Commuting step apart fun s => s = state ∨ stable s := by
  refine ⟨fun x s hs => ?_, fun x y s hs hxy => ?_⟩
  · rcases hs with rfl | hs
    · rw [hsame x]
      exact Or.inr (h.kept x other hother)
    · exact Or.inr (h.kept x s hs)
  · rcases hs with rfl | hs
    · have hcommute := h.commute x y other hother hxy
      exact ⟨by rw [hsame x, hsame y, hcommute.first], by rw [hsame x, hsame y, hcommute.second],
        by rw [hsame x, hsame y, hcommute.left]⟩
    · exact h.commute x y s hs hxy

/-- Steps for things that are apart answer in turn what each of them answers alone. -/
theorem answers (h : Commuting step apart stable) {xs : List α} (hxs : xs.Pairwise apart)
    (hstate : stable state) : (inTurn step xs state).1 = xs.map fun x => (step x state).1 := by
  induction xs generalizing state with
  | nil => rfl
  | cons x xs ih =>
    obtain ⟨hx, hrest⟩ := List.pairwise_cons.mp hxs
    have hlater : (xs.map fun y => (step y (step x state).2).1) = xs.map fun y => (step y state).1 :=
      List.map_congr_left fun y hy => (h.commute x y state hstate (hx y hy)).second
    rw [List.map_cons, ← hlater, ← ih hrest (h.kept x state hstate)]
    rfl

/-- Steps for things that are apart leave the same in every order. -/
theorem left_perm (h : Commuting step apart stable) (hsymm : ∀ {x y}, apart x y → apart y x) {xs ys : List α}
    (hperm : ys.Perm xs) (hxs : xs.Pairwise apart) (hstate : stable state) :
    (inTurn step ys state).2 = (inTurn step xs state).2 := by
  induction hperm generalizing state with
  | nil => rfl
  | cons x _ ih => exact ih (List.pairwise_cons.mp hxs).2 (h.kept x state hstate)
  | swap x y rest =>
    have hapart : apart x y := (List.pairwise_cons.mp hxs).1 y List.mem_cons_self
    have hleft := (h.commute x y state hstate hapart).left
    simp only [inTurn, hleft]
  | trans _ hlast ih ih' =>
    exact (ih (hlast.symm.pairwise hxs hsymm) hstate).trans (ih' hxs hstate)

end Commuting

end Siteworks

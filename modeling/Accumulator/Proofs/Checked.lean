import Mathlib.Data.List.Forall2

set_option autoImplicit false

/-!
Computations that may fail, and lists that are sent through them: what a success says of the steps.
-/

namespace Accumulator

variable {ε α β : Type}

theorem bind_eq_ok {x : Except ε α} {f : α → Except ε β} {b : β} :
    x >>= f = .ok b ↔ ∃ a, x = .ok a ∧ f a = .ok b := by
  cases x with
  | error e => exact ⟨nofun, fun ⟨_, failed, _⟩ => nomatch failed⟩
  | ok a => exact ⟨fun success => ⟨a, rfl, success⟩, fun ⟨_, rfl, success⟩ => success⟩

theorem pure_eq_ok {a b : α} : (pure a : Except ε α) = .ok b ↔ a = b :=
  Except.ok.injEq a b ▸ Iff.rfl

theorem map_eq_ok {x : Except ε α} {f : α → β} {b : β} :
    x.map f = .ok b ↔ ∃ a, x = .ok a ∧ f a = b := by
  cases x with
  | error e => exact ⟨nofun, fun ⟨_, failed, _⟩ => nomatch failed⟩
  | ok a =>
    constructor
    · intro success
      exact ⟨a, rfl, Except.ok.inj success⟩
    · rintro ⟨_, same, rfl⟩
      cases same
      rfl

theorem map_eq_error {x : Except ε α} {f : α → β} {e : ε} :
    x.map f = .error e ↔ x = .error e := by
  cases x with
  | error other => exact ⟨fun failed => by cases failed; rfl, fun failed => by cases failed; rfl⟩
  | ok a => exact ⟨nofun, nofun⟩

instance decidableExistsOk (x : Except ε α) (P : α → Prop) [DecidablePred P] :
    Decidable (∃ a, x = .ok a ∧ P a) :=
  match x with
  | .error _ => isFalse fun ⟨_, failed, _⟩ => nomatch failed
  | .ok a => decidable_of_iff (P a) ⟨fun holds => ⟨a, rfl, holds⟩, fun ⟨_, rfl, holds⟩ => holds⟩

theorem mapM_eq_ok {f : α → Except ε β} {xs : List α} {ys : List β} :
    xs.mapM f = .ok ys ↔ List.Forall₂ (fun x y => f x = .ok y) xs ys := by
  induction xs generalizing ys with
  | nil =>
    rw [List.mapM_nil, pure_eq_ok, List.forall₂_nil_left_iff]
    exact eq_comm
  | cons x xs ih =>
    rw [List.mapM_cons, List.forall₂_cons_left_iff]
    simp only [bind_eq_ok, pure_eq_ok, ih]
    constructor
    · rintro ⟨y, first, ys, rest, rfl⟩
      exact ⟨y, ys, first, rest, rfl⟩
    · rintro ⟨y, ys, first, rest, rfl⟩
      exact ⟨y, first, ys, rest, rfl⟩

/-- A list goes through if every element does; what each result has, all of them have. -/
theorem mapM_append_ok {f : α → Except ε β} {xs ys : List α} {us vs : List β}
    (first : xs.mapM f = .ok us) (second : ys.mapM f = .ok vs) :
    (xs ++ ys).mapM f = .ok (us ++ vs) := by
  rw [List.mapM_append, first, second]
  rfl

theorem mapM_ok_of_each {f : α → Except ε β} (P : β → Prop) (xs : List α)
    (each : ∀ x ∈ xs, ∃ y, f x = .ok y ∧ P y) :
    ∃ ys, xs.mapM f = .ok ys ∧ ∀ y ∈ ys, P y := by
  induction xs with
  | nil => exact ⟨[], rfl, nofun⟩
  | cons x xs ih =>
    obtain ⟨y, first, holds⟩ := each x List.mem_cons_self
    obtain ⟨ys, rest, all⟩ := ih fun other member => each other (List.mem_cons_of_mem _ member)
    rw [mapM_eq_ok] at rest
    refine ⟨y :: ys, mapM_eq_ok.mpr (.cons first rest), ?_⟩
    intro other member
    rcases List.mem_cons.mp member with rfl | later
    · exact holds
    · exact all other later

/-- A fold that fails does so at one of the elements, behind others that go through. -/
theorem foldlM_eq_error {f : α → β → Except ε α} {start : α} {xs : List β} {e : ε} :
    xs.foldlM f start = .error e ↔ ∃ before x after a, xs = before ++ x :: after ∧
      before.foldlM f start = .ok a ∧ f a x = .error e := by
  constructor
  · intro failed
    induction xs generalizing start with
    | nil => cases failed
    | cons x xs ih =>
      rw [List.foldlM_cons] at failed
      cases here : f start x with
      | error other =>
        rw [here] at failed
        cases failed
        exact ⟨[], x, xs, start, rfl, rfl, here⟩
      | ok next =>
        rw [here] at failed
        obtain ⟨before, y, after, a, rfl, through, last⟩ := ih failed
        refine ⟨x :: before, y, after, a, rfl, ?_, last⟩
        rw [List.foldlM_cons, here]
        exact through
  · rintro ⟨before, x, after, a, rfl, through, last⟩
    rw [List.foldlM_append, through]
    change (x :: after).foldlM f a = .error e
    rw [List.foldlM_cons, last]
    rfl

/-- Places that correspond are related. -/
theorem forall₂_getElem? {R : α → β → Prop} {xs : List α} {ys : List β}
    (related : List.Forall₂ R xs ys) (i : Nat) (x : α) (found : xs[i]? = some x) :
    ∃ y, ys[i]? = some y ∧ R x y := by
  induction related generalizing i with
  | nil => cases found
  | @cons x' y' xs ys first _ ih =>
    cases i with
    | zero =>
      cases found
      exact ⟨y', rfl, first⟩
    | succ i => exact ih i found

theorem forall₂_exists_of_mem {R : α → β → Prop} {xs : List α} {ys : List β}
    (related : List.Forall₂ R xs ys) (x : α) (member : x ∈ xs) : ∃ y ∈ ys, R x y := by
  obtain ⟨i, found⟩ := List.mem_iff_getElem?.mp member
  obtain ⟨y, placed, here⟩ := forall₂_getElem? related i x found
  exact ⟨y, List.mem_of_getElem? placed, here⟩

/-- Elements that correspond are members of their lists. -/
theorem forall₂_mem {R : α → β → Prop} {xs : List α} {ys : List β} (related : List.Forall₂ R xs ys) :
    List.Forall₂ (fun x y => x ∈ xs ∧ y ∈ ys ∧ R x y) xs ys := by
  rw [List.forall₂_iff_zip] at related ⊢
  refine ⟨related.1, fun {x y} pair => ?_⟩
  obtain ⟨first, second⟩ := List.of_mem_zip pair
  exact ⟨first, second, related.2 pair⟩

/-- What corresponds to the same elements corresponds to each other. -/
theorem forall₂_transport {γ : Type} {R : α → β → Prop} {S : α → γ → Prop} {T : β → γ → Prop}
    (each : ∀ x y z, R x y → S x z → T y z) {xs : List α} {ys : List β} {zs : List γ}
    (first : List.Forall₂ R xs ys) (second : List.Forall₂ S xs zs) : List.Forall₂ T ys zs := by
  induction first generalizing zs with
  | nil =>
    cases second
    exact .nil
  | cons here _ ih =>
    cases second with
    | cons also later => exact .cons (each _ _ _ here also) (ih later)

end Accumulator

import Mathlib.Logic.Function.Basic
import UtilsC.Lib.Machine

/-!
# Placements — where numbered things are

Things get the numbers 0, 1, 2, … as they appear; a placement says which of them a place holds.

* `Transfer` is one step of a placement: a thing moves, a new one is put somewhere or is lost, or a
  new one takes the place of another.  Its index says whether nothing was lost.
* `Single` says that no thing is in two places.  Every transfer keeps it.
* `Complete` says that every thing is in exactly one place.  `Transfer.complete_iff`: a transfer
  keeps it exactly when it loses nothing.
* `run_complete_iff` is the same for the runs of a machine.
-/

namespace UtilsC
namespace Lib

structure Placement (P : Type) where
  count : Nat
  holds : P → Option Nat

namespace Placement

variable {P : Type} (l : Placement P)

/-- The thing is somewhere. -/
def Has (n : Nat) : Prop :=
  ∃ p, l.holds p = some n

/-- A place holds a thing that exists, and no other place holds it. -/
structure Single : Prop where
  below : ∀ {p n}, l.holds p = some n → n < l.count
  unique : ∀ {p q n}, l.holds p = some n → l.holds q = some n → p = q

/-- Every thing is in exactly one place. -/
def Complete : Prop :=
  ∀ n < l.count, ∃! p, l.holds p = some n

variable {l} in
theorem Single.complete_iff (h : l.Single) : l.Complete ↔ ∀ n < l.count, l.Has n := by
  constructor
  · intro hc n hn
    exact (hc n hn).exists
  · intro hhas n hn
    rcases hhas n hn with ⟨p, hp⟩
    exact ⟨p, hp, fun q hq => h.unique hq hp⟩

variable [DecidableEq P]

def move (p q : P) : Placement P :=
  { l with holds := Function.update (Function.update l.holds p none) q (l.holds p) }

def put (q : P) : Placement P :=
  { count := l.count + 1, holds := Function.update l.holds q (some l.count) }

def lose : Placement P :=
  { l with count := l.count + 1 }

inductive Transfer : Bool → Placement P → Placement P → Prop
  | stay {l : Placement P} : Transfer true l l
  | move {l : Placement P} {p q : P} (hfree : l.holds q = none) : Transfer true l (l.move p q)
  | put {l : Placement P} {q : P} (hfree : l.holds q = none) : Transfer true l (l.put q)
  | lose {l : Placement P} : Transfer false l l.lose
  | cover {l : Placement P} {q : P} {n : Nat} (hheld : l.holds q = some n) :
      Transfer false l (l.put q)

variable {l}

section Holds

variable {p q r : P} {n : Nat}

theorem move_target : (l.move p q).holds q = l.holds p :=
  Function.update_self _ _ _

theorem move_source (hne : p ≠ q) : (l.move p q).holds p = none :=
  (Function.update_of_ne hne _ _).trans (Function.update_self _ _ _)

theorem move_other (hq : r ≠ q) (hp : r ≠ p) : (l.move p q).holds r = l.holds r :=
  (Function.update_of_ne hq _ _).trans (Function.update_of_ne hp _ _)

theorem put_target : (l.put q).holds q = some l.count :=
  Function.update_self _ _ _

theorem put_other (hq : r ≠ q) : (l.put q).holds r = l.holds r :=
  Function.update_of_ne hq _ _

/-- What a place holds behind a move was there before, or has come from the old place. -/
theorem move_holds (h : (l.move p q).holds r = some n) :
    (r = q ∧ l.holds p = some n) ∨ (r ≠ q ∧ r ≠ p ∧ l.holds r = some n) := by
  by_cases hq : r = q
  · rw [hq, move_target] at h
    exact .inl ⟨hq, h⟩
  · by_cases hp : r = p
    · rw [hp, move_source (hp ▸ hq)] at h
      cases h
    · rw [move_other hq hp] at h
      exact .inr ⟨hq, hp, h⟩

theorem put_holds (h : (l.put q).holds r = some n) :
    (r = q ∧ n = l.count) ∨ (r ≠ q ∧ l.holds r = some n) := by
  by_cases hq : r = q
  · rw [hq, put_target] at h
    exact .inl ⟨hq, (Option.some.inj h).symm⟩
  · rw [put_other hq] at h
    exact .inr ⟨hq, h⟩

omit [DecidableEq P] in
/-- An empty place is another one than a place that holds something. -/
theorem ne_of_free (hfree : l.holds q = none) (h : l.holds r = some n) : r ≠ q := by
  rintro rfl
  rw [hfree] at h
  cases h

theorem has_move (hfree : l.holds q = none) : (l.move p q).Has n ↔ l.Has n := by
  constructor
  · rintro ⟨r, hr⟩
    rcases move_holds hr with ⟨_, h⟩ | ⟨_, _, h⟩
    · exact ⟨p, h⟩
    · exact ⟨r, h⟩
  · rintro ⟨r, hr⟩
    by_cases hp : r = p
    · rw [hp] at hr
      exact ⟨q, move_target.trans hr⟩
    · exact ⟨r, (move_other (ne_of_free hfree hr) hp).trans hr⟩

theorem has_put : (l.put q).Has n ↔ n = l.count ∨ ∃ r, r ≠ q ∧ l.holds r = some n := by
  constructor
  · rintro ⟨r, hr⟩
    rcases put_holds hr with ⟨_, h⟩ | ⟨hq, h⟩
    · exact .inl h
    · exact .inr ⟨r, hq, h⟩
  · rintro (rfl | ⟨r, hq, hr⟩)
    · exact ⟨q, put_target⟩
    · exact ⟨r, (put_other hq).trans hr⟩

end Holds

/-! ## One transfer -/

theorem Single.move (h : l.Single) {p q : P} : (l.move p q).Single where
  below hr := by
    rcases move_holds hr with ⟨_, h'⟩ | ⟨_, _, h'⟩
    · exact h.below h'
    · exact h.below h'
  unique hr hr' := by
    rcases move_holds hr with ⟨hq, h₁⟩ | ⟨_, hp, h₁⟩
    · rcases move_holds hr' with ⟨hq', _⟩ | ⟨_, hp', h₂⟩
      · rw [hq, hq']
      · exact absurd (h.unique h₂ h₁) hp'
    · rcases move_holds hr' with ⟨_, h₂⟩ | ⟨_, _, h₂⟩
      · exact absurd (h.unique h₁ h₂) hp
      · exact h.unique h₁ h₂

theorem Single.put (h : l.Single) {q : P} : (l.put q).Single where
  below hr := by
    rcases put_holds hr with ⟨_, rfl⟩ | ⟨_, h'⟩
    · exact Nat.lt_succ_self _
    · exact Nat.lt_succ_of_lt (h.below h')
  unique hr hr' := by
    -- the new thing was nowhere
    rcases put_holds hr with ⟨hq, rfl⟩ | ⟨_, h₁⟩
    · rcases put_holds hr' with ⟨hq', _⟩ | ⟨_, h₂⟩
      · rw [hq, hq']
      · exact absurd (h.below h₂) (Nat.lt_irrefl _)
    · rcases put_holds hr' with ⟨_, rfl⟩ | ⟨_, h₂⟩
      · exact absurd (h.below h₁) (Nat.lt_irrefl _)
      · exact h.unique h₁ h₂

theorem Transfer.single {kept : Bool} {l' : Placement P} (ht : Transfer kept l l')
    (h : l.Single) : l'.Single := by
  cases ht with
  | stay => exact h
  | move _ => exact h.move
  | put _ => exact h.put
  | lose => exact ⟨fun hr => Nat.lt_succ_of_lt (h.below hr), h.unique⟩
  | cover _ => exact h.put

/-- A placement is complete behind a transfer exactly when it was before and nothing is lost. -/
theorem Transfer.complete_iff {kept : Bool} {l' : Placement P} (ht : Transfer kept l l')
    (h : l.Single) : l'.Complete ↔ l.Complete ∧ kept = true := by
  rw [(ht.single h).complete_iff, h.complete_iff]
  cases ht with
  | stay => exact (and_iff_left rfl).symm
  | move hfree =>
      refine (forall₂_congr fun n _ => has_move hfree).trans ?_
      exact (and_iff_left rfl).symm
  | @put _ q hfree =>
      refine Iff.trans ?_ (and_iff_left rfl).symm
      -- the new thing is where it was put, the old ones are elsewhere
      constructor
      · intro hhas n hn
        rcases has_put.1 (hhas n (Nat.lt_succ_of_lt hn)) with heq | ⟨r, _, hr⟩
        · exact absurd heq (Nat.ne_of_lt hn)
        · exact ⟨r, hr⟩
      · intro hhas n hn
        rcases Nat.lt_succ_iff_lt_or_eq.1 hn with hlt | heq
        · rcases hhas n hlt with ⟨r, hr⟩
          exact has_put.2 (.inr ⟨r, ne_of_free hfree hr, hr⟩)
        · exact has_put.2 (.inl heq)
  | lose =>
      refine iff_of_false ?_ (fun hkept => by cases hkept.2)
      intro hhas
      rcases hhas l.count (Nat.lt_succ_self _) with ⟨r, hr⟩
      exact absurd (h.below hr) (Nat.lt_irrefl _)
  | @cover _ q n hheld =>
      refine iff_of_false ?_ (fun hkept => by cases hkept.2)
      intro hhas
      -- the thing that was covered is nowhere
      have hn := h.below hheld
      rcases has_put.1 (hhas n (Nat.lt_succ_of_lt hn)) with heq | ⟨r, hne, hr⟩
      · exact absurd heq (Nat.ne_of_lt hn)
      · exact hne (h.unique hr hheld)

/-! ## Runs -/

section Run

variable {σ ε : Type} {M : Machine σ ε} {view : σ → Placement P} {keeps : σ → ε → Bool}
  (hstep : ∀ {s s' : σ} {e : ε}, M.enabled s e = true → M.exec s e = some s' →
    Transfer (keeps s e) (view s) (view s'))
include hstep

theorem run_single {s t : σ} {es : List ε} (hrun : M.Run s es t) (hs : (view s).Single) :
    (view t).Single := by
  refine hrun.invariant (J := fun s => (view s).Single) hs ?_
    (fun _ _ => trivial : ∀ e ∈ es, True)
  intro s₁ s₂ e h _ henabled hexec
  exact (hstep henabled hexec).single h

/-- What is lost stays lost: a placement is complete at the end of a run exactly when no step of
the run has lost anything. -/
theorem run_complete_iff {s t : σ} {es : List ε} (hrun : M.Run s es t) (hs : (view s).Single)
    (hc : (view s).Complete) : (view t).Complete ↔ (M.restrict keeps).Run s es t := by
  induction hrun with
  | nil => exact iff_of_true hc Machine.Run.nil
  | snoc hrun henabled hexec ih =>
      rw [(hstep henabled hexec).complete_iff (run_single hstep hrun hs), ih,
        Machine.run_snoc_iff]
      constructor
      · rintro ⟨hrun', hkept⟩
        exact ⟨_, hrun', (Bool.and_eq_true _ _).mpr ⟨henabled, hkept⟩, hexec⟩
      · rintro ⟨t', hrun', henabled', _⟩
        have ht : t' = _ := hrun'.of_restrict.unique hrun
        subst ht
        exact ⟨hrun', ((Bool.and_eq_true _ _).mp henabled').2⟩

end Run

end Placement
end Lib
end UtilsC

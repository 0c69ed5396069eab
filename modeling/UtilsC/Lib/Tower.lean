import Mathlib.Algebra.Order.Ring.Nat
import Mathlib.Data.List.Basic
import Mathlib.Data.List.Induction

/-!
# Towers — what is visible at a height along a row of towers

A row of towers of heights `h`.  Somebody who looks along the row at height `i` sees the first
tower taller than `i`; `next` is that tower, and `gap` the number of steps to it, or to the end of
the row when no tower is tall enough.

* `next` and `gap` over a row that is cut in two, and what one more tower in the row changes.
* `Bracket xs p r`: `p` is the last tower of `xs` taller than `i`, and it stands at place `r`.
* `Follows f s xs`: the pointers `f` lead from `s` through `xs` and end there.
-/

namespace UtilsC
namespace Lib
namespace Tower

variable {A : Type} {h h' : A → Nat} {i : Nat} {a p x y : A} {xs ys mid : List A}

/-- The first tower that is taller than `i`. -/
def next (h : A → Nat) (i : Nat) (xs : List A) : Option A :=
  xs.find? fun a => decide (i < h a)

def gap (h : A → Nat) (i : Nat) : List A → Nat
  | [] => 0
  | a :: xs => if i < h a then 1 else gap h i xs + 1

/-- No tower of the row is taller than `i`. -/
def Low (h : A → Nat) (i : Nat) (xs : List A) : Prop :=
  ∀ a ∈ xs, h a ≤ i

/-! ## Looking along a row -/

theorem next_cons_tall (ha : i < h a) : next h i (a :: xs) = some a := by
  simp [next, ha]

theorem gap_cons_tall (ha : i < h a) : gap h i (a :: xs) = 1 := by
  simp [gap, ha]

theorem next_append_low (hmid : Low h i mid) : next h i (mid ++ xs) = next h i xs := by
  induction mid with
  | nil => rfl
  | cons a mid ih =>
      have ha : ¬ i < h a := Nat.not_lt.2 (hmid a (by simp))
      have hrest := ih fun b hb => hmid b (List.mem_cons_of_mem a hb)
      have hstep : next h i (a :: (mid ++ xs)) = next h i (mid ++ xs) := by
        simp [next, ha]
      exact hstep.trans hrest

theorem gap_append_low (hmid : Low h i mid) :
    gap h i (mid ++ xs) = mid.length + gap h i xs := by
  induction mid with
  | nil => simp
  | cons a mid ih =>
      have ha : ¬ i < h a := Nat.not_lt.2 (hmid a (by simp))
      have hrest := ih fun b hb => hmid b (List.mem_cons_of_mem a hb)
      simp only [List.cons_append, gap, ha, if_false, hrest, List.length_cons]
      omega

/-- A row is low, or it has a first tall tower. -/
theorem low_or_first (h : A → Nat) (i : Nat) (xs : List A) :
    Low h i xs ∨ ∃ mid y rest, xs = mid ++ y :: rest ∧ Low h i mid ∧ i < h y := by
  induction xs with
  | nil => exact Or.inl fun a ha => absurd ha List.not_mem_nil
  | cons a xs ih =>
      by_cases ha : i < h a
      · refine Or.inr ⟨[], a, xs, rfl, ?_, ha⟩
        exact fun b hb => absurd hb List.not_mem_nil
      · have hle : h a ≤ i := Nat.not_lt.1 ha
        rcases ih with hlow | ⟨mid, y, rest, hxs, hmid, hy⟩
        · refine Or.inl ?_
          intro b hb
          rcases List.mem_cons.1 hb with hba | hb'
          · exact hba ▸ hle
          · exact hlow b hb'
        · refine Or.inr ⟨a :: mid, y, rest, by simp [hxs], ?_, hy⟩
          intro b hb
          rcases List.mem_cons.1 hb with hba | hb'
          · exact hba ▸ hle
          · exact hmid b hb'

theorem next_low (hxs : Low h i xs) : next h i xs = none := by
  have happend : next h i (xs ++ []) = next h i [] := next_append_low hxs
  simpa [next] using happend

theorem gap_low (hxs : Low h i xs) : gap h i xs = xs.length := by
  have happend : gap h i (xs ++ []) = xs.length + gap h i [] := gap_append_low hxs
  simpa [gap] using happend

theorem next_first (hmid : Low h i mid) (hy : i < h y) :
    next h i (mid ++ y :: xs) = some y := by
  rw [next_append_low hmid, next_cons_tall hy]

theorem gap_first (hmid : Low h i mid) (hy : i < h y) :
    gap h i (mid ++ y :: xs) = mid.length + 1 := by
  rw [gap_append_low hmid, gap_cons_tall hy]

theorem next_eq_none_iff : next h i xs = none ↔ Low h i xs := by
  constructor
  · intro hnone a ha
    have hfind := List.find?_eq_none.1 hnone a ha
    simpa using hfind
  · exact next_low

theorem next_mem (hnext : next h i xs = some y) : y ∈ xs ∧ i < h y := by
  refine ⟨List.mem_of_find?_eq_some hnext, ?_⟩
  have hfind := List.find?_some hnext
  simpa using hfind

/-- Behind a tall tower nothing of the row is seen. -/
theorem next_append_tall (hp : p ∈ mid) (htall : i < h p) :
    next h i (mid ++ xs) = next h i (mid ++ ys) := by
  rcases low_or_first h i mid with hlow | ⟨m, y, rest, hmid, hm, hy⟩
  · exact absurd htall (Nat.not_lt.2 (hlow p hp))
  · rw [hmid, List.append_assoc, List.append_assoc, List.cons_append, List.cons_append,
      next_first hm hy, next_first hm hy]

theorem gap_append_tall (hp : p ∈ mid) (htall : i < h p) :
    gap h i (mid ++ xs) = gap h i (mid ++ ys) := by
  rcases low_or_first h i mid with hlow | ⟨m, y, rest, hmid, hm, hy⟩
  · exact absurd htall (Nat.not_lt.2 (hlow p hp))
  · rw [hmid, List.append_assoc, List.append_assoc, List.cons_append, List.cons_append,
      gap_first hm hy, gap_first hm hy]

theorem next_congr (hh : ∀ a ∈ xs, h' a = h a) : next h' i xs = next h i xs := by
  induction xs with
  | nil => rfl
  | cons a xs ih =>
      have hrest := ih fun b hb => hh b (List.mem_cons_of_mem a hb)
      simp only [next, List.find?_cons, hh a (by simp)] at hrest ⊢
      rw [hrest]

theorem gap_congr (hh : ∀ a ∈ xs, h' a = h a) : gap h' i xs = gap h i xs := by
  induction xs with
  | nil => rfl
  | cons a xs ih =>
      have hrest := ih fun b hb => hh b (List.mem_cons_of_mem a hb)
      simp only [gap, hh a (by simp), hrest]

theorem gap_le_length : gap h i xs ≤ xs.length := by
  induction xs with
  | nil => simp [gap]
  | cons a xs ih =>
      simp only [gap, List.length_cons]
      split_ifs <;> omega

theorem gap_pos (hne : xs ≠ []) : 0 < gap h i xs := by
  cases xs with
  | nil => exact absurd rfl hne
  | cons a xs =>
      simp only [gap]
      split_ifs <;> omega

/-! ## The last tall tower -/

/-- `p` is the last tower of `xs` that is taller than `i`, with `r` towers in front of it. -/
def Bracket (h : A → Nat) (i : Nat) (xs : List A) (p : A) (r : Nat) : Prop :=
  ∃ pre mid, xs = pre ++ p :: mid ∧ pre.length = r ∧ i < h p ∧ Low h i mid

/-- Where a tower of a row stands that one tower `x` was added to. -/
theorem split_middle {lo hi pre post : List A} (hsplit : lo ++ x :: hi = pre ++ a :: post) :
    (∃ m, lo = pre ++ a :: m ∧ post = m ++ x :: hi) ∨ (a = x ∧ pre = lo ∧ post = hi) ∨
      ∃ m, hi = m ++ a :: post ∧ pre = lo ++ x :: m := by
  rcases List.append_eq_append_iff.1 hsplit with ⟨m, hpre, hrest⟩ | ⟨m, hlo, hrest⟩
  · cases m with
    | nil =>
        simp only [List.nil_append, List.cons.injEq] at hrest
        exact Or.inr (Or.inl ⟨hrest.1.symm, by simpa using hpre, hrest.2.symm⟩)
    | cons b m =>
        simp only [List.cons_append, List.cons.injEq] at hrest
        rw [← hrest.1] at hpre
        exact Or.inr (Or.inr ⟨m, hrest.2, hpre⟩)
  · cases m with
    | nil =>
        simp only [List.nil_append, List.cons.injEq] at hrest
        exact Or.inr (Or.inl ⟨hrest.1, by simpa using hlo.symm, hrest.2⟩)
    | cons b m =>
        simp only [List.cons_append, List.cons.injEq] at hrest
        rw [← hrest.1] at hlo
        exact Or.inl ⟨m, hlo, hrest.2⟩

/-- A tall tower in front of a place is its bracket, or the bracket stands between. -/
theorem Bracket.split {lo pre m : List A} {r : Nat} (hb : Bracket h i lo p r)
    (hlo : lo = pre ++ a :: m) (ha : i < h a) :
    (a = p ∧ pre.length = r ∧ Low h i m) ∨ (p ∈ m ∧ i < h p) := by
  rcases hb with ⟨pre', mid, hlo', hr, hp, hmid⟩
  rw [hlo] at hlo'
  rcases split_middle hlo'.symm with ⟨m', _, hm⟩ | ⟨hap, hpre, hm⟩ | ⟨m', hmid', _⟩
  · exact Or.inr ⟨by simp [hm], hp⟩
  · exact Or.inl ⟨hap, by rw [hpre]; exact hr, hm ▸ hmid⟩
  · exact absurd ha (Nat.not_lt.2 (hmid a (by simp [hmid'])))

/-! ## The way down

Somebody who starts at the greatest height and goes down whenever nothing more is seen comes past
the towers that no later tower is taller than. -/

/-- The lengths of the steps on the way down to the end of the row, `skipped` towers behind the
last stop. -/
def strides (h : A → Nat) : Nat → List A → List Nat
  | _, [] => []
  | skipped, a :: xs =>
      if ∀ b ∈ xs, h b ≤ h a then (skipped + 1) :: strides h 0 xs else strides h (skipped + 1) xs

theorem strides_cons_tall {skipped : Nat} (ha : ∀ b ∈ xs, h b ≤ h a) :
    strides h skipped (a :: xs) = (skipped + 1) :: strides h 0 xs := by
  rw [strides, if_pos ha]

theorem sum_strides {skipped : Nat} (hne : xs ≠ []) :
    (strides h skipped xs).sum = skipped + xs.length := by
  induction xs generalizing skipped with
  | nil => exact absurd rfl hne
  | cons a xs ih =>
      cases xs with
      | nil => simp [strides]
      | cons b xs =>
          rw [strides]
          split_ifs
          · rw [List.sum_cons, ih (List.cons_ne_nil b xs)]
            simp only [List.length_cons]
            omega
          · rw [ih (List.cons_ne_nil b xs)]
            simp only [List.length_cons]
            omega

theorem strides_ne_nil {skipped : Nat} (hne : xs ≠ []) : strides h skipped xs ≠ [] := by
  intro hnil
  have hsum : (strides h skipped xs).sum = skipped + xs.length := sum_strides hne
  have hpos := List.length_pos_of_ne_nil hne
  rw [hnil, List.sum_nil] at hsum
  omega

/-- Lower towers in front of a tower are skipped. -/
theorem strides_low {skipped : Nat} (hmid : ∀ b ∈ mid, h b < h y) :
    strides h skipped (mid ++ [y]) = [skipped + mid.length + 1] := by
  induction mid generalizing skipped with
  | nil => simp [strides]
  | cons a mid ih =>
      have hlower : ¬ ∀ b ∈ mid ++ [y], h b ≤ h a := by
        intro hall
        have hle := hall y (by simp)
        have hlt := hmid a (by simp)
        omega
      rw [List.cons_append, strides, if_neg hlower,
        ih fun b hb => hmid b (List.mem_cons_of_mem a hb), List.length_cons]
      congr 1
      omega

/-- One more stop `y`, behind the stop `x`. -/
theorem strides_append {skipped : Nat} (hmid : ∀ b ∈ mid, h b < h y) (hxy : h y ≤ h x) :
    strides h skipped (xs ++ x :: (mid ++ [y])) =
      strides h skipped (xs ++ [x]) ++ [mid.length + 1] := by
  induction xs generalizing skipped with
  | nil =>
      have htall : ∀ b ∈ mid ++ [y], h b ≤ h x := by
        intro b hb
        rcases List.mem_append.1 hb with hb' | hb'
        · exact Nat.le_trans (Nat.le_of_lt (hmid b hb')) hxy
        · rw [List.mem_singleton.1 hb']
          exact hxy
      rw [List.nil_append, strides_cons_tall htall, strides_low hmid]
      simp [strides]
  | cons a xs ih =>
      -- whether `a` is a stop is decided by the towers up to `x`
      have hiff : (∀ b ∈ xs ++ x :: (mid ++ [y]), h b ≤ h a) ↔ ∀ b ∈ xs ++ [x], h b ≤ h a := by
        constructor
        · intro hall b hb
          refine hall b ?_
          rcases List.mem_append.1 hb with hb' | hb'
          · exact List.mem_append_left _ hb'
          · exact List.mem_append_right _ (by simp [List.mem_singleton.1 hb'])
        · intro hall b hb
          have hxa := hall x (by simp)
          rcases List.mem_append.1 hb with hb' | hb'
          · exact hall b (List.mem_append_left _ hb')
          · rcases List.mem_cons.1 hb' with hbx | hb''
            · exact hbx ▸ hxa
            · rcases List.mem_append.1 hb'' with hbm | hby
              · exact Nat.le_trans (Nat.le_trans (Nat.le_of_lt (hmid b hbm)) hxy) hxa
              · rw [List.mem_singleton.1 hby]
                exact Nat.le_trans hxy hxa
      simp only [List.cons_append, strides, hiff, ih]
      split_ifs <;> rfl

/-! ## Following pointers -/

/-- From `s`, the pointers `f` visit exactly `xs` and then end. -/
def Follows (f : A → Option A) : Option A → List A → Prop
  | s, [] => s = none
  | s, a :: xs => s = some a ∧ Follows f (f a) xs

theorem Follows.unique {f : A → Option A} : ∀ {s : Option A} {xs ys : List A},
    Follows f s xs → Follows f s ys → xs = ys
  | _, [], [], _, _ => rfl
  | _, [], b :: ys, hxs, hys => absurd (hxs.symm.trans hys.1) (Option.some_ne_none b).symm
  | _, a :: xs, [], hxs, hys => absurd (hxs.1.symm.trans hys) (Option.some_ne_none a)
  | _, a :: xs, b :: ys, hxs, hys => by
      have hab : a = b := Option.some.inj (hxs.1.symm.trans hys.1)
      subst hab
      rw [hxs.2.unique hys.2]

/-- Pointers to the next tall tower visit the tall towers of the row. -/
theorem follows_next {f : A → Option A}
    (hf : ∀ pre a post, xs = pre ++ a :: post → i < h a → f a = next h i post) :
    Follows f (next h i xs) (xs.filter fun a => decide (i < h a)) := by
  induction xs with
  | nil => rfl
  | cons a xs ih =>
      have hrest := ih fun pre b post hsplit hb => hf (a :: pre) b post (by simp [hsplit]) hb
      by_cases ha : i < h a
      · have hfa : f a = next h i xs := hf [] a xs rfl ha
        rw [next_cons_tall ha, List.filter_cons_of_pos (by simpa using ha)]
        exact ⟨rfl, hfa ▸ hrest⟩
      · have hstep : next h i (a :: xs) = next h i xs := by
          simp [next, ha]
        rw [hstep, List.filter_cons_of_neg (by simpa using ha)]
        exact hrest

/-- Every item of the row points to the one in front of it. -/
def Backs (f : A → Option A) (xs : List A) : Prop :=
  ∀ pre a post, xs = pre ++ a :: post → f a = pre.getLast?

theorem follows_reverse {f : A → Option A} (hf : Backs f xs) :
    Follows f xs.getLast? xs.reverse := by
  induction xs using List.reverseRecOn with
  | nil => rfl
  | append_singleton xs a ih =>
      have hrest := ih fun pre b post hsplit => hf pre b (post ++ [a]) (by simp [hsplit])
      have hfa : f a = xs.getLast? := hf xs a [] rfl
      simp only [List.getLast?_append, List.getLast?_singleton, Option.some_or,
        List.reverse_append, List.reverse_singleton, List.singleton_append]
      exact ⟨rfl, hfa ▸ hrest⟩

theorem head?_ne_of_front {lo hi : List A} (hnd : (lo ++ x :: hi).Nodup) {a : A} (ha : a ∈ lo) :
    hi.head? ≠ some a := by
  intro h
  have hmem : a ∈ hi := List.mem_of_head? h
  exact (List.nodup_append.1 hnd).2.2 a ha a (by simp [hmem]) rfl

theorem head?_ne_of_tail {m : List A} {b a : A} (hnd : (b :: m).Nodup) (ha : a ∈ m) :
    (b :: m).head? ≠ some a := by
  intro h
  have hba : b = a := Option.some.inj h
  exact (List.nodup_cons.1 hnd).1 (hba ▸ ha)

/-- One more item: it points to the one in front, and the next one points to it. -/
theorem Backs.insert {f f' : A → Option A} {lo hi : List A} (hf : Backs f (lo ++ hi))
    (hnd : (lo ++ x :: hi).Nodup) (hx : f' x = lo.getLast?)
    (hfirst : ∀ y, hi.head? = some y → f' y = some x)
    (hrest : ∀ a, a ≠ x → hi.head? ≠ some a → f' a = f a) : Backs f' (lo ++ x :: hi) := by
  have hparts := List.nodup_append.1 hnd
  have hxhi : x ∉ hi := (List.nodup_cons.1 hparts.2.1).1
  intro pre a post hsplit
  rcases split_middle hsplit with ⟨m, hlo, _⟩ | ⟨hax, hpre, _⟩ | ⟨m, hhi, hpre⟩
  · have ha : a ∈ lo := by simp [hlo]
    have hax : a ≠ x := fun hax => hparts.2.2 a ha x (by simp) hax
    rw [hrest a hax (head?_ne_of_front hnd ha)]
    exact hf pre a (m ++ hi) (by simp [hlo])
  · rw [hax, hx, hpre]
  · cases m with
    | nil => rw [hfirst a (by simp [hhi]), hpre, List.getLast?_concat]
    | cons b m =>
        have hax : a ≠ x := fun hax => hxhi (by simp [hhi, ← hax])
        have hhead : hi.head? ≠ some a := by
          have hnd' := (List.nodup_cons.1 hparts.2.1).2
          rw [hhi] at hnd' ⊢
          exact head?_ne_of_tail hnd' (by simp)
        rw [hrest a hax hhead, hf (lo ++ b :: m) a post (by simp [hhi]), hpre]
        simp

/-- One item less: the next one points where it pointed. -/
theorem Backs.erase {f f' : A → Option A} {lo hi : List A} (hf : Backs f (lo ++ x :: hi))
    (hnd : (lo ++ x :: hi).Nodup) (hfirst : ∀ y, hi.head? = some y → f' y = f x)
    (hrest : ∀ a, hi.head? ≠ some a → f' a = f a) : Backs f' (lo ++ hi) := by
  have hparts := List.nodup_append.1 hnd
  intro pre a post hsplit
  rcases List.append_eq_append_iff.1 hsplit with ⟨m, hpre, hhi⟩ | ⟨m, hlo, hpost⟩
  · cases m with
    | nil =>
        rw [hfirst a (by simp [hhi]), hf lo x hi rfl, hpre, List.append_nil]
    | cons b m =>
        have hhead : hi.head? ≠ some a := by
          have hnd' := (List.nodup_cons.1 hparts.2.1).2
          rw [hhi] at hnd' ⊢
          exact head?_ne_of_tail hnd' (by simp)
        rw [hrest a hhead, hf (lo ++ x :: b :: m) a post (by simp [hhi]), hpre]
        simp
  · cases m with
    | nil =>
        have hhi : hi = a :: post := by simpa using hpost.symm
        have hpre : lo = pre := by simpa using hlo
        rw [hfirst a (by simp [hhi]), hf lo x hi rfl, hpre]
    | cons b m =>
        simp only [List.cons_append, List.cons.injEq] at hpost
        rw [← hpost.1] at hlo
        have ha : a ∈ lo := by simp [hlo]
        rw [hrest a (head?_ne_of_front hnd ha)]
        exact hf pre a (m ++ x :: hi) (by simp [hlo])

end Tower
end Lib
end UtilsC

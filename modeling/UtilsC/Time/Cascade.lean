import UtilsC.Time.Timer
import Mathlib.Data.List.Count

/-!
# The wheel runs every timer on its own

A state of the wheel represents a family of timers (`Represents`): each is in the list its `slot`
names and in no other.  The loops of a tick walk these lists while they edit them; the result is
that every timer has made its own tick (`Timer.tick`) and that what was handed to the thread pool
is what the timers fired.

* `Act.run_spec`: what one loop body does to the lists, the timers and the tasks.
* `visit_spec`: a whole loop, by induction on what is still to be visited.  A timer that the day
  stage puts back into the day list is met again and left alone.
* `ucTimerCheckTimeout_spec`: the five stages in a row.
-/

namespace UtilsC
namespace Time

open Lib ListHead RingFamily

variable {A F X : Type} [DecidableEq A]

/-- The lists and the timers a state of the wheel stands for. -/
structure Represents (mgr : UcTimerManager A F X) (lists : Slot → List A)
    (timers : A → Timer F X) : Prop where
  rings : RingFamily mgr.links lists
  mem_iff : ∀ s a, a ∈ lists s ↔ (timers a).slot = some s
  item_eq : ∀ a, mgr.item a = (timers a).item

/-- What is handed to the thread pool for a timer. -/
def task (timers : A → Timer F X) (a : A) : A × F × X :=
  (a, (timers a).item.cb, (timers a).item.arg)

omit [DecidableEq A] in
theorem task_congr {timers timers' : A → Timer F X}
    (hcore : ∀ a, (timers' a).item.core = (timers a).item.core) : task timers' = task timers := by
  funext a
  have hcb : (timers' a).item.cb = (timers a).item.cb := congrArg (fun c => c.2.1) (hcore a)
  have harg : (timers' a).item.arg = (timers a).item.arg := congrArg (fun c => c.2.2) (hcore a)
  simp [task, hcb, harg]

/-- From `mgr` to `mgr'` every timer has made the move `effect` gives it and fired as often as
`effect` says. -/
structure Moved (mgr mgr' : UcTimerManager A F X) (timers : A → Timer F X)
    (effect : A → Timer F X × Nat) : Prop where
  represents : ∃ lists, Represents mgr' lists fun a => (effect a).1
  core : ∀ a, (effect a).1.item.core = (timers a).item.core
  live : mgr'.links.live = mgr.links.live
  tasks : ∃ fired : List A, mgr'.tasks = mgr.tasks ++ fired.map (task timers) ∧
    ∀ a, fired.count a = (effect a).2

theorem Moved.refl {mgr : UcTimerManager A F X} {lists : Slot → List A} {timers : A → Timer F X}
    (hR : Represents mgr lists timers) : Moved mgr mgr timers fun a => (timers a, 0) :=
  ⟨⟨lists, hR⟩, fun _ => rfl, rfl, [], by simp, by simp⟩

theorem Moved.trans {mgr mgr' mgr'' : UcTimerManager A F X} {timers : A → Timer F X}
    {effect effect' : A → Timer F X × Nat} (h : Moved mgr mgr' timers effect)
    (h' : Moved mgr' mgr'' (fun a => (effect a).1) effect') :
    Moved mgr mgr'' timers fun a => ((effect' a).1, (effect a).2 + (effect' a).2) := by
  rcases h.tasks with ⟨fired, htasks, hcount⟩
  rcases h'.tasks with ⟨fired', htasks', hcount'⟩
  have htask : task (fun a => (effect a).1) = task timers := task_congr h.core
  refine ⟨h'.represents, fun a => (h'.core a).trans (h.core a), h'.live.trans h.live,
    fired ++ fired', ?_, ?_⟩
  · rw [htasks', htasks, htask, List.map_append, List.append_assoc]
  · intro a
    rw [List.count_append, hcount, hcount']

/-- The lists after a timer was taken out of its list and put into another one. -/
def relink (lists : Slot → List A) (a : A) (slot : Option Slot) : Slot → List A :=
  match slot with
  | none => fun t => (lists t).erase a
  | some s => Function.update (fun t => (lists t).erase a) s ((lists s).erase a ++ [a])

theorem mem_relink {lists : Slot → List A} {a b : A} {slot : Option Slot} {s : Slot}
    (hnd : ∀ t, (lists t).Nodup) :
    b ∈ relink lists a slot s ↔ (b ≠ a ∧ b ∈ lists s) ∨ (b = a ∧ slot = some s) := by
  have herase : ∀ t, b ∈ (lists t).erase a ↔ b ≠ a ∧ b ∈ lists t := fun t =>
    (hnd t).mem_erase_iff
  cases slot with
  | none => simp [relink, herase]
  | some s' =>
      by_cases hs : s = s'
      · subst hs
        simp [relink, herase]
      · have hs' : ¬ s' = s := fun h => hs h.symm
        simp [relink, Function.update_of_ne hs, herase, hs']

/-! ## One loop body -/

section Body

variable {mgr : UcTimerManager A F X} {lists : Slot → List A} {a : A} {s : Slot}

theorem del_spec (mgr : UcTimerManager A F X) (hF : RingFamily mgr.links lists) (ha : a ∈ lists s) :
    ∃ links, mgr.del a = some { mgr with links := links } ∧ links.live = mgr.links.live ∧
      RingFamily links (fun t => (lists t).erase a) := by
  rcases listDel_linked hF ha with ⟨links, hdel, hlive, hF'⟩
  exact ⟨links, by simp [UcTimerManager.del, hdel], hlive, hF'⟩

theorem addTail_spec (mgr : UcTimerManager A F X) (hF : RingFamily mgr.links lists)
    (hfree : ∀ t, a ∉ lists t) (halive : mgr.links.live (Loc.item a) = true) (s : Slot) :
    ∃ links, mgr.addTail a s = some { mgr with links := links } ∧ links.live = mgr.links.live ∧
      RingFamily links (Function.update lists s (lists s ++ [a])) := by
  rcases listAddTail_unlinked hF hfree halive s with ⟨links, hadd, hlive, hF'⟩
  exact ⟨links, by simp [UcTimerManager.addTail, hadd], hlive, hF'⟩

theorem cascade_spec (hF : RingFamily mgr.links lists) (ha : a ∈ lists s) (slot : Slot) :
    ∃ links, ((mgr.del a).bind fun mgr => mgr.addTail a slot) =
        some { mgr with links := links } ∧
      links.live = mgr.links.live ∧ RingFamily links (relink lists a (some slot)) := by
  rcases del_spec mgr hF ha with ⟨links₁, hdel, hlive₁, hF₁⟩
  have halive : links₁.live (Loc.item a) = true := by
    rw [hlive₁]
    exact hF.live_item s a ha
  let mgr₁ : UcTimerManager A F X := { mgr with links := links₁ }
  rcases addTail_spec mgr₁ hF₁ hF.not_mem_erase halive slot with ⟨links₂, hadd, hlive₂, hF₂⟩
  refine ⟨links₂, ?_, hlive₂.trans hlive₁, hF₂⟩
  rw [hdel, Option.bind_some]
  exact hadd

theorem rearm_spec (mgr : UcTimerManager A F X) (hF : RingFamily mgr.links lists)
    (ha : a ∈ lists s) :
    ∃ links, ((mgr.del a).bind fun mgr => ucTimerNodeReinsert mgr a) =
        some { mgr with
          links := links
          item := Function.update mgr.item a (Timer.rearm mgr.idx (mgr.item a)).item } ∧
      links.live = mgr.links.live ∧
      RingFamily links (relink lists a (Timer.rearm mgr.idx (mgr.item a)).slot) := by
  rcases del_spec mgr hF ha with ⟨links₁, hdel, hlive₁, hF₁⟩
  have halive : links₁.live (Loc.item a) = true := by
    rw [hlive₁]
    exact hF.live_item s a ha
  rw [hdel, Option.bind_some]
  let next := Stamp.ofMillisecond (millisecondNext mgr.idx (mgr.item a).interval)
  let mgr₁ := ({ mgr with links := links₁ } : UcTimerManager A F X).setItem a
    { mgr.item a with next := next }
  rcases addTail_spec mgr₁ hF₁ hF.not_mem_erase halive (reinsertSlot mgr.idx next) with
    ⟨links₂, hadd, hlive₂, hF₂⟩
  exact ⟨links₂, hadd, hlive₂.trans hlive₁, hF₂⟩

/-- What `timeout` does: the timer's own timeout, and one task. -/
theorem timeout_spec (hF : RingFamily mgr.links lists) (ha : a ∈ lists s) :
    ∃ links, timeout mgr a =
        some { mgr with
          links := links
          item := Function.update mgr.item a (Timer.timeout mgr.idx (mgr.item a)).item
          tasks := mgr.tasks ++ [(a, (mgr.item a).cb, (mgr.item a).arg)] } ∧
      links.live = mgr.links.live ∧
      RingFamily links (relink lists a (Timer.timeout mgr.idx (mgr.item a)).slot) := by
  let mgr₁ := mgr.ucThreadpoolAddVoidTask a
  by_cases h0 : (mgr.item a).ttl = 0
  · rcases rearm_spec mgr₁ hF ha with ⟨links, hrearm, hlive, hF'⟩
    have htimer : Timer.timeout mgr.idx (mgr.item a) = Timer.rearm mgr.idx (mgr.item a) := by
      rw [Timer.timeout, if_pos h0]
    refine ⟨links, ?_, hlive, htimer ▸ hF'⟩
    rw [htimer, timeout]
    exact (if_pos h0).trans hrearm
  · let it := { mgr.item a with ttl := (mgr.item a).ttl - 1 }
    let mgr₂ := mgr₁.setItem a it
    have hit : mgr₂.item a = it := Function.update_self _ _ _
    have hstep : timeout mgr a =
        if (mgr₂.item a).ttl = 0 then mgr₂.del a
        else (mgr₂.del a).bind fun mgr => ucTimerNodeReinsert mgr a := by
      rw [timeout]
      exact if_neg h0
    rw [hstep, hit]
    by_cases h1 : it.ttl = 0
    · rcases del_spec mgr₂ hF ha with ⟨links, hdel, hlive, hF'⟩
      have htimer : Timer.timeout mgr.idx (mgr.item a) = { slot := none, item := it } := by
        rw [Timer.timeout, if_neg h0]
        exact if_pos h1
      refine ⟨links, ?_, hlive, htimer ▸ hF'⟩
      rw [htimer, if_pos h1]
      exact hdel
    · rcases rearm_spec mgr₂ hF ha with ⟨links, hrearm, hlive, hF'⟩
      rw [hit] at hrearm hF'
      have htimer : Timer.timeout mgr.idx (mgr.item a) = Timer.rearm mgr.idx it := by
        rw [Timer.timeout, if_neg h0]
        exact if_neg h1
      have hitem : Function.update mgr₂.item a (Timer.rearm mgr.idx it).item =
          Function.update mgr.item a (Timer.rearm mgr.idx it).item :=
        Function.update_idem _ _ _
      refine ⟨links, ?_, hlive, htimer ▸ hF'⟩
      rw [htimer, if_neg h1, ← hitem]
      exact hrearm

/-- The lists after an action; only `keep` leaves the timer where it is. -/
def Act.edit (act : Act) (lists : Slot → List A) (a : A) (slot : Option Slot) : Slot → List A :=
  match act with
  | .keep => lists
  | _ => relink lists a slot

theorem Act.run_spec (act : Act) (hF : RingFamily mgr.links lists) (ha : a ∈ lists s) :
    let r := Timer.act mgr.idx { slot := some s, item := mgr.item a } act
    ∃ links, act.run mgr a =
        some { mgr with
          links := links
          item := Function.update mgr.item a r.1.item
          tasks := mgr.tasks ++ List.replicate r.2 (a, (mgr.item a).cb, (mgr.item a).arg) } ∧
      links.live = mgr.links.live ∧ RingFamily links (act.edit lists a r.1.slot) := by
  cases act with
  | keep => exact ⟨mgr.links, by simp [Act.run, Timer.act], rfl, hF⟩
  | cascade slot =>
      rcases cascade_spec hF ha slot with ⟨links, hrun, hlive, hF'⟩
      refine ⟨links, ?_, hlive, hF'⟩
      simpa [Act.run, Timer.act] using hrun
  | timeout => exact timeout_spec hF ha

end Body

/-! ## One loop -/

namespace Stage

variable (stage : Stage)

/-- The loop body of a stage. -/
def body (a : A) (mgr : UcTimerManager A F X) : Option (UcTimerManager A F X) :=
  (stage.act mgr.idx (mgr.item a).next).run mgr a

/-- What a visit does to a timer, and how often it fires. -/
def visit (idx : Stamp) (t : Timer F X) : Timer F X × Nat :=
  t.act idx (stage.act idx t.item.next)

theorem visit_keep {stage : Stage} {idx : Stamp} {t : Timer F X}
    (hkeep : stage.act idx t.item.next = .keep) : stage.visit idx t = (t, 0) := by
  simp [visit, hkeep, Timer.act]

theorem core_visit (idx : Stamp) (t : Timer F X) :
    (stage.visit idx t).1.item.core = t.item.core :=
  Timer.core_act idx t _

end Stage

section Loop

variable {stage : Stage} {mgr : UcTimerManager A F X} {lists : Slot → List A}
  {timers : A → Timer F X}

theorem mem_edit (hR : Represents mgr lists timers) {a : A} (act : Act) {t' : Timer F X}
    (hkeep : act = .keep → t' = timers a) (t : Slot) (b : A) :
    b ∈ act.edit lists a t'.slot t ↔ (Function.update timers a t' b).slot = some t := by
  by_cases hact : act = .keep
  · rw [hact, hkeep hact, Function.update_eq_self]
    exact hR.mem_iff t b
  · have hedit : act.edit lists a t'.slot = relink lists a t'.slot := by
      cases act with
      | keep => exact absurd rfl hact
      | cascade slot => rfl
      | timeout => rfl
    rw [hedit, mem_relink hR.rings.nodup]
    by_cases hb : b = a
    · subst hb
      simp
    · simp [hb, hR.mem_iff t b]

/-- One loop body: the visited timer makes its move, and the lists are known exactly. -/
theorem body_spec (stage : Stage) (hR : Represents mgr lists timers) {a : A} {s : Slot}
    (ha : a ∈ lists s) :
    let r := stage.visit mgr.idx (timers a)
    ∃ mgr', stage.body a mgr = some mgr' ∧ mgr'.idx = mgr.idx ∧
      Represents mgr' ((stage.act mgr.idx (timers a).item.next).edit lists a r.1.slot)
        (Function.update timers a r.1) ∧
      Moved mgr mgr' timers fun b => if b = a then r else (timers b, 0) := by
  intro r
  have hslot : (timers a).slot = some s := (hR.mem_iff s a).1 ha
  have htimer : ({ slot := some s, item := mgr.item a } : Timer F X) = timers a :=
    Timer.ext hslot.symm (hR.item_eq a)
  have hspec := (stage.act mgr.idx (timers a).item.next).run_spec hR.rings ha
  rw [htimer] at hspec
  rcases hspec with ⟨links, hrun, hlive, hF⟩
  let mgr' : UcTimerManager A F X :=
    { mgr with
      links := links
      item := Function.update mgr.item a r.1.item
      tasks := mgr.tasks ++ List.replicate r.2 (a, (mgr.item a).cb, (mgr.item a).arg) }
  have hR' : Represents mgr' ((stage.act mgr.idx (timers a).item.next).edit lists a r.1.slot)
      (Function.update timers a r.1) := by
    refine ⟨hF, ?_, ?_⟩
    · refine mem_edit hR _ ?_
      intro hkeep
      exact congrArg Prod.fst (Stage.visit_keep hkeep)
    · intro b
      by_cases hb : b = a
      · subst hb
        simp [mgr']
      · simp [mgr', Function.update_of_ne hb, hR.item_eq b]
  have heffect : (fun b => (if b = a then r else (timers b, 0)).1) =
      Function.update timers a r.1 := by
    funext b
    by_cases hb : b = a <;> simp [hb]
  refine ⟨mgr', ?_, rfl, hR', ⟨_, heffect ▸ hR'⟩, ?_, hlive, List.replicate r.2 a, ?_, ?_⟩
  · rw [Stage.body, hR.item_eq a]
    exact hrun
  · intro b
    by_cases hb : b = a
    · subst hb
      simpa using stage.core_visit mgr.idx (timers b)
    · simp [hb]
  · simp [mgr', task, hR.item_eq a]
  · intro b
    by_cases hb : b = a
    · simp [hb]
    · have hb' : a ≠ b := fun h => hb h.symm
      simp [hb, hb', List.count_replicate]

/-- How many timers of a list the stage would not leave alone. -/
def busy (stage : Stage) (idx : Stamp) (timers : A → Timer F X) (xs : List A) : Nat :=
  xs.countP fun a => decide (stage.act idx (timers a).item.next ≠ .keep)

theorem busy_update (stage : Stage) (idx : Stamp) (timers : A → Timer F X) (t : Timer F X)
    {a : A} {xs : List A} (ha : a ∉ xs) :
    busy stage idx (Function.update timers a t) xs = busy stage idx timers xs := by
  refine List.countP_congr ?_
  intro b hb
  have hba : b ≠ a := fun hba => ha (hba ▸ hb)
  rw [Function.update_of_ne hba]

/-- Where the loops leave a timer that is or is not among those still to be visited. -/
def Stage.sweep (stage : Stage) (idx : Stamp) (timers : A → Timer F X) (rest : List A) (a : A) :
    Timer F X × Nat :=
  if a ∈ rest then stage.visit idx (timers a) else (timers a, 0)

theorem sweep_nil (idx : Stamp) :
    stage.sweep idx timers [] = fun a => (timers a, 0) := by
  funext a
  simp [Stage.sweep]

/-- A first visit and the visits after it.  The visited timer may be among those to come, but is
then left alone. -/
theorem sweep_cons {idx : Stamp} {a : A} {ys rest : List A}
    (hrest : ∀ b, b ≠ a → (b ∈ rest ↔ b ∈ ys))
    (hself : a ∈ rest →
      stage.act idx (stage.visit idx (timers a)).1.item.next = .keep) (b : A) :
    stage.sweep idx timers (a :: ys) b =
      ((stage.sweep idx (Function.update timers a (stage.visit idx (timers a)).1) rest b).1,
        (if b = a then stage.visit idx (timers a) else (timers b, 0)).2 +
          (stage.sweep idx (Function.update timers a (stage.visit idx (timers a)).1) rest
            b).2) := by
  by_cases hb : b = a
  · subst hb
    -- a timer that comes up again is left alone the second time
    by_cases hmem : b ∈ rest
    · simp [Stage.sweep, hmem, Stage.visit_keep (hself hmem)]
    · simp [Stage.sweep, hmem]
  · simp [Stage.sweep, hb, hrest b hb]

/-- The rest of a loop over `lists s = xs ++ rest`, from the first of `rest` on.  The induction is
on a bound for the visits to come: every timer counts once, and one that is not left alone once
more, since the stage may put it back at the end of the list. -/
theorem visit_spec {s : Slot} {idx : Stamp} (hs : stage.slot idx = s) :
    ∀ (N : Nat) {mgr : UcTimerManager A F X} {lists : Slot → List A} {timers : A → Timer F X}
      {xs rest : List A}, Represents mgr lists timers → mgr.idx = idx → lists s = xs ++ rest →
      (∀ a ∈ rest, stage.Calm idx (timers a)) → 2 * busy stage idx timers rest + rest.length ≤ N →
      ∃ mgr',
        listForEachSafe UcTimerManager.links stage.body s (N + 1) (first s rest) mgr = some mgr' ∧
        mgr'.idx = idx ∧ Moved mgr mgr' timers (stage.sweep idx timers rest) := by
  intro N
  induction N with
  | zero =>
      intro mgr lists timers xs rest hR hidx hlist _ hN
      have hrest : rest = [] := List.length_eq_zero_iff.1 (by omega)
      subst hrest
      refine ⟨mgr, by simp [listForEachSafe], hidx, ?_⟩
      rw [sweep_nil]
      exact Moved.refl hR
  | succ N ih =>
      intro mgr lists timers xs rest hR hidx hlist hcalm hN
      cases rest with
      | nil =>
          refine ⟨mgr, by simp [listForEachSafe], hidx, ?_⟩
          rw [sweep_nil]
          exact Moved.refl hR
      | cons a ys =>
          have ha : a ∈ lists s := by simp [hlist]
          have hnext := hR.rings.next_item_eq hlist
          have halive := hR.rings.live_item s a ha
          rcases body_spec stage hR ha with ⟨mgr₁, hbody, hidx₁, hR₁, hmoved⟩
          have hnd : (xs ++ a :: ys).Nodup := hlist ▸ hR.rings.nodup s
          have hays : a ∉ ys := (List.nodup_cons.1 (List.nodup_append.1 hnd).2.1).1
          have herase : (lists s).erase a = xs ++ ys := hR.rings.erase_eq_of_split hlist
          rw [hidx] at hR₁ hmoved hidx₁
          have hloop : listForEachSafe UcTimerManager.links stage.body s (N + 1 + 1)
              (first s (a :: ys)) mgr =
              listForEachSafe UcTimerManager.links stage.body s (N + 1) (first s ys) mgr₁ := by
            simp [listForEachSafe, halive, hbody, hnext]
          have htimers : ∀ b, b ≠ a →
              Function.update timers a (stage.visit idx (timers a)).1 b = timers b :=
            fun b hba => Function.update_of_ne hba _ _
          have hfinish : ∀ xs₁ rest₁, (stage.act idx (timers a).item.next).edit lists a
                (stage.visit idx (timers a)).1.slot s = xs₁ ++ rest₁ →
              first s rest₁ = first s ys → (∀ b, b ≠ a → (b ∈ rest₁ ↔ b ∈ ys)) →
              (a ∈ rest₁ → stage.act idx (stage.visit idx (timers a)).1.item.next = .keep) →
              2 * busy stage idx (Function.update timers a (stage.visit idx (timers a)).1) rest₁ +
                rest₁.length ≤ N →
              ∃ mgr', listForEachSafe UcTimerManager.links stage.body s (N + 1 + 1)
                  (first s (a :: ys)) mgr = some mgr' ∧
                mgr'.idx = idx ∧ Moved mgr mgr' timers (stage.sweep idx timers (a :: ys)) := by
            intro xs₁ rest₁ hlist₁ hfirst hrest hself hN₁
            have hcalm₁ : ∀ b ∈ rest₁, stage.Calm idx
                (Function.update timers a (stage.visit idx (timers a)).1 b) := by
              intro b hb
              by_cases hba : b = a
              · subst hba
                have hkeep := hself hb
                rw [Function.update_self]
                intro _
                simp [hkeep, Timer.act]
              · rw [htimers b hba]
                exact hcalm b (List.mem_cons_of_mem a ((hrest b hba).1 hb))
            rcases ih hR₁ hidx₁ hlist₁ hcalm₁ hN₁ with ⟨mgr', hloop', hidx', hmoved'⟩
            have heffect : (fun b => (if b = a then stage.visit idx (timers a)
                else (timers b, 0)).1) =
                Function.update timers a (stage.visit idx (timers a)).1 := by
              funext b
              by_cases hba : b = a <;> simp [hba]
            have htrans := hmoved.trans (heffect ▸ hmoved')
            rw [heffect] at htrans
            refine ⟨mgr', ?_, hidx', ?_⟩
            · rw [hloop, ← hfirst]
              exact hloop'
            · have hsweep : stage.sweep idx timers (a :: ys) = _ :=
                funext (sweep_cons hrest hself)
              rw [hsweep]
              exact htrans
          have hlen : (a :: ys).length = ys.length + 1 := rfl
          by_cases hkeep : stage.act idx (timers a).item.next = .keep
          · -- the timer stays in the list, and the loop goes on with its successor
            have hvisit : stage.visit idx (timers a) = (timers a, 0) := Stage.visit_keep hkeep
            have hbusy : busy stage idx timers (a :: ys) = busy stage idx timers ys :=
              List.countP_cons_of_neg (by simp [hkeep])
            refine hfinish (xs ++ [a]) ys ?_ rfl (fun _ _ => Iff.rfl) (fun h => absurd h hays) ?_
            · rw [hkeep]
              simp [Act.edit, hlist]
            · rw [hvisit, Function.update_eq_self]
              omega
          · have hedit : (stage.act idx (timers a).item.next).edit lists a
                (stage.visit idx (timers a)).1.slot =
                relink lists a (stage.visit idx (timers a)).1.slot := by
              cases hact : stage.act idx (timers a).item.next with
              | keep => exact absurd hact hkeep
              | cascade slot => rfl
              | timeout => rfl
            have hbusy : busy stage idx timers (a :: ys) = busy stage idx timers ys + 1 :=
              List.countP_cons_of_pos (by simp [hkeep])
            have hbusy₁ := busy_update stage idx timers (stage.visit idx (timers a)).1 hays
            by_cases hback : (stage.visit idx (timers a)).1.slot = some s
            · -- put back at the end of the very list that is being visited
              have hcalmed : stage.act idx (stage.visit idx (timers a)).1.item.next = .keep :=
                hcalm a (by simp) (hs ▸ hback)
              have hself : (relink lists a (stage.visit idx (timers a)).1.slot) s =
                  xs ++ ys ++ [a] := by
                rw [hback, relink, Function.update_self, herase]
              have hquiet : busy stage idx (Function.update timers a
                  (stage.visit idx (timers a)).1) [a] = 0 := by
                simp [busy, hcalmed]
              cases ys with
              | nil =>
                  -- the loop has fetched the head already and ends without seeing the timer again
                  refine hfinish (xs ++ [a]) [] ?_ rfl (fun _ _ => Iff.rfl) (fun _ => hcalmed) ?_
                  · simpa [hedit] using hself
                  · simp [busy]
              | cons y ys =>
                  -- the loop will come to the timer once more
                  refine hfinish xs (y :: ys ++ [a]) ?_ rfl ?_ (fun _ => hcalmed) ?_
                  · simpa [hedit] using hself
                  · intro b hba
                    simp [hba]
                  · have happend : busy stage idx (Function.update timers a
                        (stage.visit idx (timers a)).1) (y :: ys ++ [a]) =
                        busy stage idx timers (y :: ys) := by
                      rw [busy, List.countP_append]
                      exact congrArg₂ (· + ·) hbusy₁ hquiet
                    have happlen : (y :: ys ++ [a]).length = (y :: ys).length + 1 := by simp
                    omega
            · -- gone from this list
              refine hfinish xs ys ?_ rfl (fun _ _ => Iff.rfl) (fun h => absurd h hays) ?_
              · rw [hedit, ← herase]
                cases hslot : (stage.visit idx (timers a)).1.slot with
                | none => rfl
                | some s' =>
                    have hne : s ≠ s' := fun h => hback (by rw [hslot, h])
                    simp [relink, Function.update_of_ne hne]
              · omega

end Loop

/-! ## A tick -/

section Tick

variable {mgr mgr' : UcTimerManager A F X} {lists : Slot → List A} {timers : A → Timer F X}

/-- Every timer that is in a list has an interval that `uc_timer_add` accepts. -/
def Intervals (timers : A → Timer F X) : Prop :=
  ∀ a, (timers a).slot ≠ none →
    0 < (timers a).item.interval ∧ (timers a).item.interval < timerIntervalMax

theorem Stage.run_mono {stage : Stage} {fuel fuel' : Nat} (hle : fuel ≤ fuel')
    (hret : stage.run fuel mgr = some mgr') : stage.run fuel' mgr = some mgr' := by
  by_cases hdue : stage.due mgr.idx = true
  · rw [Stage.run, if_pos hdue] at hret ⊢
    exact listForEachSafe_mono _ _ _ hle hret
  · rw [Stage.run, if_neg hdue] at hret ⊢
    exact hret

theorem foldlM_run_mono {fuel fuel' : Nat} (hle : fuel ≤ fuel') :
    ∀ {rest : List Stage} {mgr : UcTimerManager A F X},
      rest.foldlM (fun mgr stage => stage.run fuel mgr) mgr = some mgr' →
      rest.foldlM (fun mgr stage => stage.run fuel' mgr) mgr = some mgr'
  | [], _, hret => hret
  | stage :: rest, mgr, hret => by
      rw [List.foldlM_cons] at hret ⊢
      rcases Option.bind_eq_some_iff.1 hret with ⟨mgr₁, hstage, hrest⟩
      exact Option.bind_eq_some_iff.2
        ⟨mgr₁, Stage.run_mono hle hstage, foldlM_run_mono hle hrest⟩

theorem ucTimerCheckTimeout_mono {fuel fuel' : Nat} (hle : fuel ≤ fuel')
    (hret : ucTimerCheckTimeout fuel mgr = some mgr') :
    ucTimerCheckTimeout fuel' mgr = some mgr' :=
  foldlM_run_mono hle hret

/-- Two ticks of one state that return agree. -/
theorem ucTimerCheckTimeout_unique {fuel fuel' : Nat} {mgr₁ mgr₂ : UcTimerManager A F X}
    (h₁ : ucTimerCheckTimeout fuel mgr = some mgr₁)
    (h₂ : ucTimerCheckTimeout fuel' mgr = some mgr₂) : mgr₁ = mgr₂ := by
  have h₁' := ucTimerCheckTimeout_mono (Nat.le_max_left fuel fuel') h₁
  have h₂' := ucTimerCheckTimeout_mono (Nat.le_max_right fuel fuel') h₂
  exact Option.some.inj (h₁'.symm.trans h₂')

/-- One stage: every timer makes its own move. -/
theorem Level.run_spec (k : Level) (hR : Represents mgr lists timers) (hint : Intervals timers)
    (hnow : (k.stage.clock mgr.idx).val < 2 ^ 31) :
    ∃ fuel mgr', k.stage.run fuel mgr = some mgr' ∧ mgr'.idx = k.stage.clock mgr.idx ∧
      Moved mgr mgr' timers fun a => k.stage.timer mgr.idx (timers a) := by
  by_cases hdue : k.stage.due mgr.idx = true
  · have hclock : k.stage.clock mgr.idx = k.stage.advance mgr.idx := by
      rw [Stage.clock, if_pos hdue]
    rw [hclock] at hnow ⊢
    let idx := k.stage.advance mgr.idx
    let mgr₀ : UcTimerManager A F X := { mgr with idx := idx }
    have hR₀ : Represents mgr₀ lists timers := ⟨hR.rings, hR.mem_iff, hR.item_eq⟩
    have hcalm : ∀ a ∈ lists (k.stage.slot idx), k.stage.Calm idx (timers a) := by
      intro a ha
      have hslot := (hR.mem_iff _ a).1 ha
      have hia := hint a (by simp [hslot])
      exact Level.calm hnow hslot hia.1 hia.2
    let rest := lists (k.stage.slot idx)
    -- so many visits are enough
    let visits := 2 * busy k.stage idx timers rest + rest.length
    rcases visit_spec rfl visits hR₀ rfl (List.nil_append rest).symm hcalm (Nat.le_refl _) with
      ⟨mgr', hloop, hidx, hmoved⟩
    refine ⟨visits + 1, mgr', ?_, hidx, ?_⟩
    · have hfirst : mgr.links.next (Loc.head (k.stage.slot idx)) = first (k.stage.slot idx) rest :=
        hR.rings.next_head_eq _
      rw [Stage.run, if_pos hdue, listForEach]
      show listForEachSafe UcTimerManager.links k.stage.body (k.stage.slot idx) (visits + 1)
        (mgr.links.next (Loc.head (k.stage.slot idx))) mgr₀ = some mgr'
      rw [hfirst]
      exact hloop
    · have hsweep : k.stage.sweep idx timers (lists (k.stage.slot idx)) =
          fun a => k.stage.timer mgr.idx (timers a) := by
        funext a
        simp only [Stage.sweep, Stage.timer, hdue, true_and, hR.mem_iff]
        rfl
      have hmoved' : Moved mgr mgr' timers (k.stage.sweep idx timers rest) :=
        ⟨hmoved.represents, hmoved.core, hmoved.live, hmoved.tasks⟩
      exact hsweep ▸ hmoved'
  · have hclock : k.stage.clock mgr.idx = mgr.idx := by
      rw [Stage.clock, if_neg hdue]
    refine ⟨0, mgr, by rw [Stage.run, if_neg hdue], hclock.symm, ?_⟩
    have heffect : (fun a => k.stage.timer mgr.idx (timers a)) = fun a => (timers a, 0) := by
      funext a
      simp [Stage.timer, hdue]
    exact heffect ▸ Moved.refl hR

omit [DecidableEq A] in
theorem Intervals.of_core {timers timers' : A → Timer F X} (hint : Intervals timers)
    (hcore : ∀ a, (timers' a).item.core = (timers a).item.core)
    (hslot : ∀ a, (timers a).slot = none → (timers' a).slot = none) : Intervals timers' := by
  intro a ha
  have hne : (timers a).slot ≠ none := fun h => ha (hslot a h)
  have hinterval := UcTimerItem.interval_of_core (hcore a)
  rw [hinterval]
  exact hint a hne

/-- The stages from some point on. -/
theorem foldlM_run_spec : ∀ {rest : List Level} {mgr : UcTimerManager A F X}
    {lists : Slot → List A} {timers : A → Timer F X} {final : Nat},
    Represents mgr lists timers → Intervals timers → Carry rest mgr.idx final → final < 2 ^ 31 →
      ∃ fuel mgr',
        (rest.map Level.stage).foldlM (fun mgr stage => stage.run fuel mgr) mgr = some mgr' ∧
        mgr'.idx = clocks (rest.map Level.stage) mgr.idx ∧
        Moved mgr mgr' timers fun a => Timer.through (rest.map Level.stage) mgr.idx (timers a)
  | [], mgr, _, _, _, hR, _, _, _ => ⟨0, mgr, rfl, rfl, Moved.refl hR⟩
  | k :: rest, mgr, lists, timers, final, hR, hint, hc, hfinal => by
      have hcarry : Carry rest (k.stage.clock mgr.idx) final := by
        rcases hc with ⟨hdue, _, hc⟩ | ⟨hidle, _, hc⟩
        · rwa [Level.clock_due hdue]
        · rwa [Level.clock_idle hidle]
      have hnow : (k.stage.clock mgr.idx).val < 2 ^ 31 :=
        lt_of_le_of_lt (Carry.le hcarry) hfinal
      rcases Level.run_spec k hR hint hnow with ⟨fuel₁, mgr₁, hrun₁, hidx₁, hmoved₁⟩
      rcases hmoved₁.represents with ⟨lists₁, hR₁⟩
      have hint₁ : Intervals fun a => (k.stage.timer mgr.idx (timers a)).1 := by
        refine hint.of_core hmoved₁.core ?_
        intro a ha
        simp [Stage.timer, ha]
      rcases foldlM_run_spec hR₁ hint₁ (hidx₁ ▸ hcarry) hfinal with
        ⟨fuel₂, mgr₂, hrun₂, hidx₂, hmoved₂⟩
      refine ⟨max fuel₁ fuel₂, mgr₂, ?_, ?_, ?_⟩
      · rw [List.map_cons, List.foldlM_cons]
        exact Option.bind_eq_some_iff.2 ⟨mgr₁, Stage.run_mono (Nat.le_max_left _ _) hrun₁,
          foldlM_run_mono (Nat.le_max_right _ _) hrun₂⟩
      · rw [hidx₂, hidx₁]
        rfl
      · rw [hidx₁] at hmoved₂
        exact hmoved₁.trans hmoved₂

/-- A tick returns, and every timer has made its own tick. -/
theorem ucTimerCheckTimeout_spec (hR : Represents mgr lists timers) (hint : Intervals timers)
    (hclock : mgr.idx.val + 1 < 2 ^ 31) :
    ∃ fuel mgr', ucTimerCheckTimeout fuel mgr = some mgr' ∧ mgr'.idx = tickClock mgr.idx ∧
      Moved mgr mgr' timers fun a => Timer.tick mgr.idx (timers a) := by
  have hlt : mgr.idx.val + 1 < 86400000 * 65536 := by omega
  exact foldlM_run_spec hR hint (carry_levels hlt) hclock

end Tick

/-! ## The empty wheel, and adding to a wheel -/

omit [DecidableEq A] in
theorem ring_nil {h : LinkHeap Slot A} {s : Slot} (hnext : h.next (Loc.head s) = Loc.head s)
    (hprev : h.prev (Loc.head s) = Loc.head s) : Ring h s ([] : List A) :=
  List.isChain_cons_cons.2 ⟨⟨hnext, hprev⟩, List.isChain_singleton _⟩

omit [DecidableEq A] in
theorem emptyManager_rings (mem : A → UcTimerItem F X) :
    RingFamily (emptyManager mem).links fun _ => ([] : List A) :=
  { ring := fun _ => ring_nil rfl rfl
    nodup := fun _ => List.nodup_nil
    disjoint := fun _ _ _ ha => absurd ha List.not_mem_nil
    live_head := fun _ => rfl
    live_item := fun _ _ ha => absurd ha List.not_mem_nil }

omit [DecidableEq A] in
theorem emptyManager_represents (mem : A → UcTimerItem F X) :
    Represents (emptyManager mem) (fun _ => []) fun a => { slot := none, item := mem a } :=
  ⟨emptyManager_rings mem, fun _ _ => by simp, fun _ => rfl⟩

section Add

variable {mgr : UcTimerManager A F X} {lists : Slot → List A} {timers : A → Timer F X}

/-- The fields `uc_timer_add_do` gives to a new timer. -/
def newItem (idx : Stamp) (millisecond ttl : Nat) (cb : F) (arg : X) : UcTimerItem F X :=
  { interval := millisecond
    ttl := ttl
    next := Stamp.ofMillisecond (millisecondNext idx millisecond)
    cb := cb
    arg := arg }

/-- A request that passes the checks and gets memory: the timer is linked in the list that
`addSlot` chooses, and nothing else changes. -/
theorem ucTimerAddDo_spec (hR : Represents mgr lists timers) {a : A}
    (hfresh : mgr.links.live (Loc.item a) = false) {millisecond : Nat} (hpos : 0 < millisecond)
    (hmax : millisecond < timerIntervalMax) (ttl : Nat) (cb : F) (arg : X) :
    let it := newItem mgr.idx millisecond ttl cb arg
    ∃ mgr' lists', ucTimerAddDo (some a) millisecond ttl (some cb) arg mgr = some (mgr', some a) ∧
      Represents mgr' lists'
        (Function.update timers a { slot := some (addSlot it.next), item := it }) ∧
      mgr'.idx = mgr.idx ∧ mgr'.tasks = mgr.tasks ∧
      mgr'.links.live = Function.update mgr.links.live (Loc.item a) true := by
  intro it
  -- what is in a list is live, and the new memory is not
  have hfree : ∀ t, a ∉ lists t := by
    intro t ha
    have hlive := hR.rings.live_item t a ha
    rw [hfresh] at hlive
    cases hlive
  let mgr₁ := ({ mgr with links := mgr.links.alloc a } : UcTimerManager A F X).setItem a it
  have hF₁ : RingFamily mgr₁.links lists := hR.rings.alloc a
  have halive : mgr₁.links.live (Loc.item a) = true := Function.update_self _ _ _
  rcases addTail_spec mgr₁ hF₁ hfree halive (addSlot it.next) with ⟨links, hadd, hlive, hF⟩
  refine ⟨{ mgr₁ with links := links }, _, ?_, ⟨hF, ?_, ?_⟩, rfl, rfl, hlive⟩
  · have hok : ¬ (millisecond ≥ timerIntervalMax ∨ millisecond = 0) := by omega
    rw [ucTimerAddDo, if_neg hok]
    show (mgr₁.addTail a (addSlot it.next)).map (fun mgr => (mgr, some a)) = _
    rw [hadd]
    rfl
  · intro t b
    have hmem := hR.mem_iff t b
    by_cases hb : b = a
    · subst hb
      by_cases ht : t = addSlot it.next
      · subst ht
        simp
      · have ht' : ¬ addSlot it.next = t := fun h => ht h.symm
        simp [Function.update_of_ne ht, hfree t, ht']
    · by_cases ht : t = addSlot it.next
      · subst ht
        simpa [Function.update_of_ne hb, hb] using hmem
      · simpa [Function.update_of_ne ht, Function.update_of_ne hb] using hmem
  · intro b
    by_cases hb : b = a
    · subst hb
      simp [mgr₁, UcTimerManager.setItem]
    · simp [mgr₁, UcTimerManager.setItem, Function.update_of_ne hb, hR.item_eq b]

/-- Every call either makes a timer as above or changes nothing. -/
theorem ucTimerAddDo_cases (malloc : Option A) (millisecond ttl : Nat) (cb : Option F) (arg : X)
    (mgr : UcTimerManager A F X) :
    ucTimerAddDo malloc millisecond ttl cb arg mgr = some (mgr, none) ∨
      ∃ a f, malloc = some a ∧ cb = some f ∧ 0 < millisecond ∧
        millisecond < timerIntervalMax := by
  by_cases hbad : millisecond ≥ timerIntervalMax ∨ millisecond = 0
  · left
    simp [ucTimerAddDo, hbad]
  · cases cb with
    | none =>
        left
        simp [ucTimerAddDo]
    | some f =>
        cases malloc with
        | none =>
            left
            simp [ucTimerAddDo]
        | some a => exact Or.inr ⟨a, f, rfl, rfl, by omega, by omega⟩

/-- A call that comes back has changed nothing, or it has linked a timer in fresh memory. -/
theorem ucTimerAddDo_step {mgr' : UcTimerManager A F X} (hR : Represents mgr lists timers)
    {malloc hdl : Option A} {millisecond ttl : Nat} {cb : Option F} {arg : X}
    (hfresh : ∀ a, malloc = some a → mgr.links.live (Loc.item a) = false)
    (hadd : ucTimerAddDo malloc millisecond ttl cb arg mgr = some (mgr', hdl)) :
    mgr' = mgr ∨
      ∃ a it lists', malloc = some a ∧ (∃ f, it = newItem mgr.idx millisecond ttl f arg) ∧
        0 < millisecond ∧ millisecond < timerIntervalMax ∧
        Represents mgr' lists'
          (Function.update timers a { slot := some (addSlot it.next), item := it }) ∧
        mgr'.idx = mgr.idx ∧ mgr'.tasks = mgr.tasks ∧
        mgr'.links.live = Function.update mgr.links.live (Loc.item a) true := by
  rcases ucTimerAddDo_cases malloc millisecond ttl cb arg mgr with
    hnone | ⟨a, f, hmalloc, hcb, hpos, hmax⟩
  · rw [hnone] at hadd
    cases hadd
    exact Or.inl rfl
  · rcases ucTimerAddDo_spec hR (hfresh a hmalloc) hpos hmax ttl f arg with
      ⟨mgr₂, lists₂, hadd₂, hstep⟩
    rw [hmalloc, hcb, hadd₂] at hadd
    cases hadd
    exact Or.inr ⟨a, _, lists₂, hmalloc, ⟨f, rfl⟩, hpos, hmax, hstep⟩

end Add

end Time
end UtilsC

import UtilsC.Lib.Traced
import UtilsC.Time.FirstFiring

/-!
# The lists behind the digit 0

A digit 0 of a deadline never decides where a timer goes, so the first lists of the four lower
wheels stay empty.  A stage whose index comes round to 0 therefore visits nobody: whoever is visited
is visited by the last stage that moves the clock, and a timer that is put back reads a clock that
has carried.

* `ucTimerCheckTimeoutPass` is a tick with every statement it passes, and
  `result_ucTimerCheckTimeoutPass` says that it is the tick.
* `Clear` is the invariant, kept by an addition, by every statement of a tick and by a deletion.
* `slotZero_empty`: what follows for every state of a run and for every statement of its ticks.
-/

namespace UtilsC
namespace Time

open Lib ListHead RingFamily

variable {A F X : Type} [DecidableEq A]

/-! ## A tick, statement by statement -/

/-- A point of a tick: the state there, and the timer at the entry of `uc_timer_node_reinsert`. -/
structure Point (A F X : Type) where
  mgr : UcTimerManager A F X
  reinsert : Option A

abbrev Pass (A F X : Type) : Type := Traced (Point A F X) (UcTimerManager A F X)

/-- A statement, and the point behind it. -/
def stmt (x : Option (UcTimerManager A F X)) : Pass A F X :=
  (Traced.lift x).bind fun mgr =>
    (Traced.log { mgr := mgr, reinsert := none }).bind fun _ => Traced.pure mgr

def ucTimerNodeReinsertPass (mgr : UcTimerManager A F X) (a : A) : Pass A F X :=
  (Traced.log { mgr := mgr, reinsert := some a }).bind fun _ =>
    let next := Stamp.ofMillisecond (millisecondNext mgr.idx (mgr.item a).interval)
    (stmt (some (mgr.setItem a { mgr.item a with next := next }))).bind fun mgr' =>
      stmt (mgr'.addTail a (reinsertSlot mgr.idx next))

def timeoutPass (mgr : UcTimerManager A F X) (a : A) : Pass A F X :=
  (stmt (some (mgr.ucThreadpoolAddVoidTask a))).bind fun mgr =>
    if (mgr.item a).ttl = 0 then
      (stmt (mgr.del a)).bind fun mgr => ucTimerNodeReinsertPass mgr a
    else
      (stmt (some (mgr.setItem a { mgr.item a with ttl := (mgr.item a).ttl - 1 }))).bind fun mgr =>
        if (mgr.item a).ttl = 0 then
          stmt (mgr.del a)
        else
          (stmt (mgr.del a)).bind fun mgr => ucTimerNodeReinsertPass mgr a

def Act.pass (act : Act) (mgr : UcTimerManager A F X) (a : A) : Pass A F X :=
  match act with
  | .keep => Traced.pure mgr
  | .cascade slot => (stmt (mgr.del a)).bind fun mgr => stmt (mgr.addTail a slot)
  | .timeout => timeoutPass mgr a

/-- `listForEachSafe` over the statements of a body. -/
def listForEachPass (body : A → UcTimerManager A F X → Pass A F X) (s : Slot) :
    Nat → Loc Slot A → UcTimerManager A F X → Pass A F X
  | 0, _, _ => Traced.lift none
  | _ + 1, Loc.head t, mgr => Traced.lift (if t = s then some mgr else none)
  | fuel + 1, Loc.item a, mgr =>
      if mgr.links.live (Loc.item a) = true then
        (body a mgr).bind (listForEachPass body s fuel (mgr.links.next (Loc.item a)))
      else
        Traced.lift none

/-- The loop body of a stage. -/
def Stage.bodyPass (stage : Stage) (a : A) (mgr : UcTimerManager A F X) : Pass A F X :=
  (stage.act mgr.idx (mgr.item a).next).pass mgr a

def Stage.pass (stage : Stage) (fuel : Nat) (mgr : UcTimerManager A F X) : Pass A F X :=
  if stage.due mgr.idx = true then
    (stmt (some { mgr with idx := stage.advance mgr.idx })).bind fun mgr =>
      listForEachPass stage.bodyPass (stage.slot mgr.idx) fuel
        (mgr.links.next (Loc.head (stage.slot mgr.idx))) mgr
  else
    Traced.pure mgr

/-- The points of a tick, from its start on. -/
def ucTimerCheckTimeoutPass (fuel : Nat) (mgr : UcTimerManager A F X) : Pass A F X :=
  (Traced.log { mgr := mgr, reinsert := none }).bind fun _ =>
    Traced.fold (fun mgr stage => stage.pass fuel mgr) stages mgr

section Result

variable (mgr : UcTimerManager A F X) (a : A)

omit [DecidableEq A] in
@[simp] theorem result_stmt (x : Option (UcTimerManager A F X)) : (stmt x).result = x := by
  simp [stmt]

theorem result_ucTimerNodeReinsertPass :
    (ucTimerNodeReinsertPass mgr a).result = ucTimerNodeReinsert mgr a := by
  simp [ucTimerNodeReinsertPass, ucTimerNodeReinsert]

theorem result_timeoutPass : (timeoutPass mgr a).result = timeout mgr a := by
  have hagain : ∀ mgr : UcTimerManager A F X,
      ((stmt (mgr.del a)).bind fun mgr => ucTimerNodeReinsertPass mgr a).result =
        (mgr.del a).bind fun mgr => ucTimerNodeReinsert mgr a := by
    intro mgr
    simp [result_ucTimerNodeReinsertPass]
  rw [timeoutPass, timeout, Traced.result_bind, result_stmt, Option.bind_some]
  by_cases h0 : ((mgr.ucThreadpoolAddVoidTask a).item a).ttl = 0
  · rw [if_pos h0, if_pos h0, hagain]
  · have hlast : ∀ mgr : UcTimerManager A F X,
        (if (mgr.item a).ttl = 0 then stmt (mgr.del a)
          else (stmt (mgr.del a)).bind fun mgr => ucTimerNodeReinsertPass mgr a).result =
        if (mgr.item a).ttl = 0 then mgr.del a
          else (mgr.del a).bind fun mgr => ucTimerNodeReinsert mgr a := by
      intro mgr
      split_ifs
      · exact result_stmt _
      · exact hagain mgr
    rw [if_neg h0, if_neg h0, Traced.result_bind, result_stmt, Option.bind_some]
    exact hlast _

theorem Act.result_pass (act : Act) : (act.pass mgr a).result = act.run mgr a := by
  cases act with
  | keep => rfl
  | cascade slot => simp [Act.pass, Act.run]
  | timeout => exact result_timeoutPass mgr a

omit [DecidableEq A] in
theorem result_listForEachPass {body : A → UcTimerManager A F X → Pass A F X}
    {run : A → UcTimerManager A F X → Option (UcTimerManager A F X)} (s : Slot)
    (hbody : ∀ a mgr, (body a mgr).result = run a mgr) :
    ∀ (fuel : Nat) (pos : Loc Slot A) (mgr : UcTimerManager A F X),
      (listForEachPass body s fuel pos mgr).result =
        listForEachSafe UcTimerManager.links run s fuel pos mgr
  | 0, _, _ => by simp [listForEachPass, listForEachSafe]
  | _ + 1, Loc.head t, _ => by simp [listForEachPass, listForEachSafe]
  | fuel + 1, Loc.item a, mgr => by
      have hrest := result_listForEachPass s hbody fuel (mgr.links.next (Loc.item a))
      simp only [listForEachPass, listForEachSafe]
      split_ifs
      · rw [Traced.result_bind, hbody]
        exact congrArg (Option.bind (run a mgr)) (funext hrest)
      · rfl

theorem Stage.result_pass (stage : Stage) (fuel : Nat) :
    (stage.pass fuel mgr).result = stage.run fuel mgr := by
  unfold Stage.pass Stage.run
  split_ifs
  · rw [Traced.result_bind, result_stmt, Option.bind_some, listForEach]
    exact result_listForEachPass _ (fun a mgr => Act.result_pass mgr a _) _ _ _
  · rfl

/-- The tick that passes the points is the tick. -/
theorem result_ucTimerCheckTimeoutPass (fuel : Nat) :
    (ucTimerCheckTimeoutPass fuel mgr).result = ucTimerCheckTimeout fuel mgr := by
  rw [ucTimerCheckTimeoutPass, Traced.result_bind, Traced.result_log, Option.bind_some]
  exact Traced.result_fold (fun mgr stage => Stage.result_pass mgr stage fuel) stages mgr

end Result

/-! ## No timer goes behind a digit 0 -/

/-- The lists behind the digit 0; the day wheel has no such list. -/
def zeroSlots : List Slot := [Slot.ms 0, Slot.s 0, Slot.m 0, Slot.h 0]

section ZeroSlots

variable (i : Fin 60)

@[simp] theorem ms_mem_zeroSlots (i : Fin 1000) : Slot.ms i ∈ zeroSlots ↔ i = 0 := by
  simp [zeroSlots]

@[simp] theorem s_mem_zeroSlots : Slot.s i ∈ zeroSlots ↔ i = 0 := by
  simp [zeroSlots]

@[simp] theorem m_mem_zeroSlots : Slot.m i ∈ zeroSlots ↔ i = 0 := by
  simp [zeroSlots]

@[simp] theorem h_mem_zeroSlots (i : Fin 24) : Slot.h i ∈ zeroSlots ↔ i = 0 := by
  simp [zeroSlots]

@[simp] theorem d_not_mem_zeroSlots (i : Fin 1) : Slot.d i ∉ zeroSlots := by
  simp [zeroSlots]

end ZeroSlots

theorem reinsertSlot_ne_zero {now next : Stamp} (hlt : now.val < next.val) :
    reinsertSlot now next ∉ zeroSlots := by
  intro hmem
  unfold reinsertSlot at hmem
  split_ifs at hmem with hd hh hm hs
  · exact d_not_mem_zeroSlots 0 hmem
  · exact hh.1 ((h_mem_zeroSlots _).1 hmem)
  · exact hm.1 ((m_mem_zeroSlots _).1 hmem)
  · exact hs.1 ((s_mem_zeroSlots _).1 hmem)
  · -- no digit of the deadline is larger than the clock's
    have hms : next.ms = 0 := (ms_mem_zeroSlots _).1 hmem
    simp only [ne_eq, Fin.ext_iff, Fin.val_zero] at hd hh hm hs hms
    simp only [Stamp.val] at hlt
    omega

theorem addSlot_ne_zero {next : Stamp} (hpos : 0 < next.val) : addSlot next ∉ zeroSlots := by
  have hlt : Stamp.zero.val < next.val := hpos
  rw [addSlot_eq_place, ← reinsertSlot_eq_place hlt]
  exact reinsertSlot_ne_zero hlt

theorem Level.cascade_ne_zero {k : Level} {idx next : Stamp} {slot : Slot}
    (hact : k.stage.act idx next = .cascade slot) : slot ∉ zeroSlots := by
  cases k <;>
    simp only [Level.stage, msStage, sStage, mStage, hStage, dStage, reduceCtorEq] at hact <;>
    split_ifs at hact <;>
    cases hact <;>
    simp_all

/-- A wheel that has come round stands at its first list. -/
theorem Level.slot_zero {k : Level} {t : Stamp} (hk : k ≠ .d) (hround : t.val % k.turn = 0) :
    k.slot t ∈ zeroSlots := by
  unfold Stamp.val at hround
  cases k with
  | ms =>
      have hdigit : t.ms.val = 0 := by
        simp only [Level.turn] at hround
        omega
      exact (ms_mem_zeroSlots _).2 (Fin.ext hdigit)
  | s =>
      have hdigit : t.s.val = 0 := by
        simp only [Level.turn] at hround
        omega
      exact (s_mem_zeroSlots _).2 (Fin.ext hdigit)
  | m =>
      have hdigit : t.m.val = 0 := by
        simp only [Level.turn] at hround
        omega
      exact (m_mem_zeroSlots _).2 (Fin.ext hdigit)
  | h =>
      have hdigit : t.h.val = 0 := by
        simp only [Level.turn] at hround
        omega
      exact (h_mem_zeroSlots _).2 (Fin.ext hdigit)
  | d => exact absurd rfl hk

/-! ## The points of a loop body -/

/-- `ms_list_head[0]`, `s_list_head[0]`, `m_list_head[0]` and `h_list_head[0]` are empty. -/
def ZeroEmpty (links : LinkHeap Slot A) : Prop :=
  ∀ s ∈ zeroSlots, listEmpty links (Loc.head s) = true

/-- A point of the tick that ends at `final`. -/
structure Point.Sound (final : Nat) (p : Point A F X) : Prop where
  empty : ZeroEmpty p.mgr.links
  carried : ∀ a, p.reinsert = some a → p.mgr.idx.val = final

/-- The timer is in a list, and none is behind a digit 0. -/
def Linked (links : LinkHeap Slot A) (a : A) : Prop :=
  ∃ lists s, RingFamily links lists ∧ (∀ z ∈ zeroSlots, lists z = []) ∧ a ∈ lists s

/-- The timer is live and in no list, and none is behind a digit 0. -/
def Unlinked (links : LinkHeap Slot A) (a : A) : Prop :=
  ∃ lists, RingFamily links lists ∧ (∀ z ∈ zeroSlots, lists z = []) ∧ (∀ t, a ∉ lists t) ∧
    links.live (Loc.item a) = true

/-- What a call of `uc_timer_node_reinsert` rests on. -/
structure Ready (final : Nat) (mgr : UcTimerManager A F X) (a : A) : Prop where
  clock : mgr.idx.val = final
  now : final < 2 ^ 31
  pos : 0 < (mgr.item a).interval
  max : (mgr.item a).interval < timerIntervalMax

section Body

variable {mgr mgr' : UcTimerManager A F X} {lists : Slot → List A} {a : A} {final : Nat}

theorem zeroEmpty_of_nil {links : LinkHeap Slot A} (hF : RingFamily links lists)
    (hnil : ∀ z ∈ zeroSlots, lists z = []) : ZeroEmpty links :=
  fun z hz => (listEmpty_iff hF).2 (hnil z hz)

theorem Linked.empty {links : LinkHeap Slot A} (h : Linked links a) : ZeroEmpty links := by
  rcases h with ⟨lists, s, hF, hnil, _⟩
  exact zeroEmpty_of_nil hF hnil

theorem Unlinked.empty {links : LinkHeap Slot A} (h : Unlinked links a) : ZeroEmpty links := by
  rcases h with ⟨lists, hF, hnil, _⟩
  exact zeroEmpty_of_nil hF hnil

theorem Linked.del (h : Linked mgr.links a) (hdel : mgr.del a = some mgr') :
    Unlinked mgr'.links a ∧ mgr'.item = mgr.item ∧ mgr'.idx = mgr.idx := by
  rcases h with ⟨lists, s, hF, hnil, ha⟩
  rcases del_spec mgr hF ha with ⟨links, hdel', hlive, hF'⟩
  rw [hdel'] at hdel
  cases hdel
  refine ⟨⟨_, hF', ?_, hF.not_mem_erase, ?_⟩, rfl, rfl⟩
  · intro z hz
    rw [hnil z hz]
    rfl
  · show links.live (Loc.item a) = true
    rw [hlive]
    exact hF.live_item s a ha

theorem Unlinked.addTail (h : Unlinked mgr.links a) {slot : Slot} (hslot : slot ∉ zeroSlots)
    (hadd : mgr.addTail a slot = some mgr') : ZeroEmpty mgr'.links := by
  rcases h with ⟨lists, hF, hnil, hfree, halive⟩
  rcases addTail_spec mgr hF hfree halive slot with ⟨links, hadd', _, hF'⟩
  rw [hadd'] at hadd
  cases hadd
  refine zeroEmpty_of_nil hF' ?_
  intro z hz
  have hne : z ≠ slot := fun h => hslot (h ▸ hz)
  rw [Function.update_of_ne hne]
  exact hnil z hz

theorem stmt_all {x : Option (UcTimerManager A F X)} {Q : UcTimerManager A F X → Prop}
    (hx : ∀ mgr, x = some mgr → ZeroEmpty mgr.links ∧ Q mgr) :
    Traced.All (Point.Sound final) Q (stmt x) := by
  refine (Traced.All.lift hx).bind fun mgr h => ?_
  have hsound : Point.Sound final { mgr := mgr, reinsert := none } := by
    refine ⟨h.1, ?_⟩
    intro a ha
    cases ha
  exact (Traced.All.log hsound).bind fun _ _ => Traced.All.pure h.2

theorem stmt_del_all (h : Linked mgr.links a) :
    Traced.All (Point.Sound final)
      (fun mgr' => Unlinked mgr'.links a ∧ mgr'.item = mgr.item ∧ mgr'.idx = mgr.idx)
      (stmt (mgr.del a)) := by
  refine stmt_all fun mgr' hdel => ?_
  have hout := h.del hdel
  exact ⟨hout.1.empty, hout⟩

theorem stmt_addTail_all (h : Unlinked mgr.links a) {slot : Slot} (hslot : slot ∉ zeroSlots) :
    Traced.All (Point.Sound final) (fun _ => True) (stmt (mgr.addTail a slot)) :=
  stmt_all fun _ hadd => ⟨h.addTail hslot hadd, trivial⟩

theorem reinsertPass_all (h : Unlinked mgr.links a) (hready : Ready final mgr a) :
    Traced.All (Point.Sound final) (fun _ => True) (ucTimerNodeReinsertPass mgr a) := by
  have hentry : Point.Sound final { mgr := mgr, reinsert := some a } :=
    ⟨h.empty, fun _ _ => hready.clock⟩
  refine (Traced.All.log hentry).bind fun _ _ => ?_
  let next := Stamp.ofMillisecond (millisecondNext mgr.idx (mgr.item a).interval)
  -- the clock has carried, so the new deadline is ahead of it
  have hahead : mgr.idx.val < next.val := by
    have hval : next.val = mgr.idx.val + (mgr.item a).interval :=
      val_next (hready.clock ▸ hready.now) hready.max
    rw [hval]
    exact Nat.lt_add_of_pos_right hready.pos
  have hset : Traced.All (Point.Sound final) (fun mgr' => Unlinked mgr'.links a)
      (stmt (some (mgr.setItem a { mgr.item a with next := next }))) := by
    refine stmt_all fun mgr' hmgr' => ?_
    cases hmgr'
    exact ⟨h.empty, h⟩
  exact hset.bind fun mgr' h' => stmt_addTail_all h' (reinsertSlot_ne_zero hahead)

/-- Out of its list and back. -/
theorem again_all (h : Linked mgr.links a) (hready : Ready final mgr a) :
    Traced.All (Point.Sound final) (fun _ => True)
      ((stmt (mgr.del a)).bind fun mgr => ucTimerNodeReinsertPass mgr a) := by
  refine (stmt_del_all h).bind fun mgr' hout => ?_
  rcases hout with ⟨hout, hitem, hidx⟩
  refine reinsertPass_all hout ⟨?_, hready.now, ?_, ?_⟩
  · rw [hidx]
    exact hready.clock
  · rw [hitem]
    exact hready.pos
  · rw [hitem]
    exact hready.max

theorem timeoutPass_all (h : Linked mgr.links a) (hready : Ready final mgr a) :
    Traced.All (Point.Sound final) (fun _ => True) (timeoutPass mgr a) := by
  have htask : Traced.All (Point.Sound final)
      (fun mgr' => Linked mgr'.links a ∧ Ready final mgr' a)
      (stmt (some (mgr.ucThreadpoolAddVoidTask a))) := by
    refine stmt_all fun mgr' hmgr' => ?_
    cases hmgr'
    exact ⟨h.empty, h, hready.clock, hready.now, hready.pos, hready.max⟩
  refine htask.bind fun mgr₁ h₁ => ?_
  rcases h₁ with ⟨h₁, hready₁⟩
  split_ifs
  · exact again_all h₁ hready₁
  · have hcount : Traced.All (Point.Sound final)
        (fun mgr' => Linked mgr'.links a ∧ Ready final mgr' a)
        (stmt (some (mgr₁.setItem a { mgr₁.item a with ttl := (mgr₁.item a).ttl - 1 }))) := by
      refine stmt_all fun mgr' hmgr' => ?_
      cases hmgr'
      -- the interval is that of the timer, whatever happens to the count
      refine ⟨h₁.empty, h₁, hready₁.clock, hready₁.now, ?_, ?_⟩
      · simpa [UcTimerManager.setItem] using hready₁.pos
      · simpa [UcTimerManager.setItem] using hready₁.max
    refine hcount.bind fun mgr₂ h₂ => ?_
    split_ifs
    · exact (stmt_del_all h₂.1).imp fun _ _ => trivial
    · exact again_all h₂.1 h₂.2

theorem Act.pass_all {act : Act} (hslot : ∀ slot, act = .cascade slot → slot ∉ zeroSlots)
    (h : Linked mgr.links a) (hready : Ready final mgr a) :
    Traced.All (Point.Sound final) (fun _ => True) (act.pass mgr a) := by
  cases act with
  | keep => exact Traced.All.pure trivial
  | cascade slot =>
      exact (stmt_del_all h).bind fun mgr' hout => stmt_addTail_all hout.1 (hslot slot rfl)
  | timeout => exact timeoutPass_all h hready

end Body

/-! ## The invariant -/

/-- The state of the wheel, with no timer behind a digit 0. -/
structure Clear (mgr : UcTimerManager A F X) (lists : Slot → List A) (timers : A → Timer F X) :
    Prop where
  represents : Represents mgr lists timers
  intervals : Intervals timers
  off : ∀ a s, (timers a).slot = some s → s ∉ zeroSlots

section Tick

variable {mgr mgr' : UcTimerManager A F X} {lists : Slot → List A} {timers : A → Timer F X}
  {final : Nat}

omit [DecidableEq A] in
theorem Clear.off_of_mem (hclear : Clear mgr lists timers) {a : A} {s : Slot} (ha : a ∈ lists s) :
    s ∉ zeroSlots :=
  hclear.off a s ((hclear.represents.mem_iff s a).1 ha)

omit [DecidableEq A] in
theorem Clear.nil (hclear : Clear mgr lists timers) : ∀ z ∈ zeroSlots, lists z = [] :=
  fun _ hz => List.eq_nil_iff_forall_not_mem.2 fun _ ha => hclear.off_of_mem ha hz

theorem Clear.empty (hclear : Clear mgr lists timers) : ZeroEmpty mgr.links :=
  zeroEmpty_of_nil hclear.represents.rings hclear.nil

omit [DecidableEq A] in
/-- Where a visit leaves a timer. -/
theorem Level.visit_off (k : Level) {idx : Stamp} {t : Timer F X} (hnow : idx.val < 2 ^ 31)
    (hpos : 0 < t.item.interval) (hmax : t.item.interval < timerIntervalMax)
    (hoff : ∀ s, t.slot = some s → s ∉ zeroSlots) :
    ∀ s, (k.stage.visit idx t).1.slot = some s → s ∉ zeroSlots := by
  intro s hs
  unfold Stage.visit at hs
  cases hact : k.stage.act idx t.item.next with
  | keep =>
      rw [hact] at hs
      exact hoff s hs
  | cascade slot =>
      rw [hact] at hs
      exact Option.some.inj hs ▸ Level.cascade_ne_zero hact
  | timeout =>
      rw [hact] at hs
      have hahead : idx.val <
          (Stamp.ofMillisecond (millisecondNext idx t.item.interval)).val := by
        rw [val_next hnow hmax]
        exact Nat.lt_add_of_pos_right hpos
      simp only [Timer.act, Timer.timeout, Timer.rearm] at hs
      split_ifs at hs
      · exact Option.some.inj hs ▸ reinsertSlot_ne_zero hahead
      · exact Option.some.inj hs ▸ reinsertSlot_ne_zero hahead

/-- One timer is changed. -/
theorem Clear.update (hclear : Clear mgr lists timers) {a : A} {t : Timer F X}
    {lists' : Slot → List A} (hR' : Represents mgr' lists' (Function.update timers a t))
    (ht : ∀ s, t.slot = some s →
      s ∉ zeroSlots ∧ 0 < t.item.interval ∧ t.item.interval < timerIntervalMax) :
    Clear mgr' lists' (Function.update timers a t) := by
  refine ⟨hR', hclear.intervals.update ?_, ?_⟩
  · intro hne
    rcases Option.ne_none_iff_exists'.1 hne with ⟨s, hs⟩
    exact (ht s hs).2
  · intro b s hs
    by_cases hb : b = a
    · subst hb
      rw [Function.update_self] at hs
      exact (ht s hs).1
    · rw [Function.update_of_ne hb] at hs
      exact hclear.off b s hs

/-- One visit, at a clock that has carried. -/
theorem Level.bodyPass_all (k : Level) {a : A} {s : Slot} (hclear : Clear mgr lists timers)
    (ha : a ∈ lists s) (hclock : mgr.idx.val = final) (hfinal : final < 2 ^ 31) :
    Traced.All (Point.Sound final)
      (fun mgr' => mgr'.idx = mgr.idx ∧
        Clear mgr' ((k.stage.act mgr.idx (timers a).item.next).edit lists a
            (k.stage.visit mgr.idx (timers a)).1.slot)
          (Function.update timers a (k.stage.visit mgr.idx (timers a)).1))
      (k.stage.bodyPass a mgr) := by
  have hR := hclear.represents
  have hslot := (hR.mem_iff s a).1 ha
  have hia := hclear.intervals a (by simp [hslot])
  have hready : Ready final mgr a := by
    refine ⟨hclock, hfinal, ?_, ?_⟩
    · rw [hR.item_eq]
      exact hia.1
    · rw [hR.item_eq]
      exact hia.2
  have hlinked : Linked mgr.links a := ⟨lists, s, hR.rings, hclear.nil, ha⟩
  refine ⟨(Act.pass_all (fun _ => Level.cascade_ne_zero) hlinked hready).points, ?_⟩
  -- behind the visit the state is that of the plain loop body
  intro mgr' hmgr'
  rcases body_spec k.stage hR ha with ⟨mgr₁, hbody, hidx, hR₁, _⟩
  rw [Stage.body, ← Act.result_pass] at hbody
  have heq : mgr₁ = mgr' := Option.some.inj (hbody.symm.trans hmgr')
  subst heq
  have hcore := UcTimerItem.interval_of_core (k.stage.core_visit mgr.idx (timers a))
  refine ⟨hidx, hclear.update hR₁ fun t ht => ⟨?_, hcore ▸ hia.1, hcore ▸ hia.2⟩⟩
  exact k.visit_off (hclock ▸ hfinal) hia.1 hia.2 (hclear.off a) t ht

/-- A loop, whatever it still has to visit.  Somebody to visit means that the clock has carried. -/
theorem listForEachPass_all {k : Level} {idx : Stamp} {s : Slot} (hfinal : final < 2 ^ 31)
    (hlast : s ∉ zeroSlots → idx.val = final) :
    ∀ (fuel : Nat) {mgr : UcTimerManager A F X} {lists : Slot → List A} {timers : A → Timer F X}
      {pos : Loc Slot A}, Clear mgr lists timers → mgr.idx = idx →
      (pos = Loc.head s ∨ ∃ a ∈ lists s, pos = Loc.item a) →
      Traced.All (Point.Sound final)
        (fun mgr' => mgr'.idx = idx ∧ ∃ lists' timers', Clear mgr' lists' timers')
        (listForEachPass k.stage.bodyPass s fuel pos mgr)
  | 0, _, _, _, _, _, _, _ => Traced.All.lift fun _ h => absurd h (by simp)
  | fuel + 1, mgr, lists, timers, pos, hclear, hidx, hpos => by
      rcases hpos with hhead | ⟨a, ha, hitem⟩
      · subst hhead
        refine Traced.All.lift fun mgr' h => ?_
        rw [if_pos rfl] at h
        cases h
        exact ⟨hidx, lists, timers, hclear⟩
      · subst hitem
        have hR := hclear.represents
        have hclock : mgr.idx.val = final := hidx ▸ hlast (hclear.off_of_mem ha)
        have halive := hR.rings.live_item s a ha
        show Traced.All _ _ (if mgr.links.live (Loc.item a) = true then _ else _)
        rw [if_pos halive]
        refine (k.bodyPass_all hclear ha hclock hfinal).bind fun mgr₁ h₁ => ?_
        rcases h₁ with ⟨hidx₁, hclear₁⟩
        -- the entry fetched before is still in the list
        exact listForEachPass_all hfinal hlast fuel hclear₁ (hidx₁.trans hidx)
          (next_item_cases hR _ _ ha)

/-- One stage.  When its wheel has come round, the list it turns to is behind a digit 0. -/
theorem Level.pass_all {k : Level} {rest : List Level} {fuel : Nat} (hfinal : final < 2 ^ 31)
    (hclear : Clear mgr lists timers) (hcarry : Carry (k :: rest) mgr.idx final) :
    Traced.All (Point.Sound final)
      (fun mgr' => Carry rest mgr'.idx final ∧ ∃ lists' timers', Clear mgr' lists' timers')
      (k.stage.pass fuel mgr) := by
  unfold Stage.pass
  rcases hcarry with ⟨hdue, hval, hcarry⟩ | ⟨hidle, _, hcarry⟩
  · rw [if_pos (Level.due_iff.2 hdue)]
    let idx := k.stage.advance mgr.idx
    have hset : Traced.All (Point.Sound final)
        (fun mgr' => mgr' = { mgr with idx := idx })
        (stmt (some { mgr with idx := idx })) := by
      refine stmt_all fun mgr' hmgr' => ?_
      cases hmgr'
      exact ⟨hclear.empty, rfl⟩
    refine hset.bind fun mgr₁ hmgr₁ => ?_
    subst hmgr₁
    have hR := hclear.represents
    have hclear₁ : Clear { mgr with idx := idx } lists timers :=
      ⟨⟨hR.rings, hR.mem_iff, hR.item_eq⟩, hclear.intervals, hclear.off⟩
    have hlast : k.stage.slot idx ∉ zeroSlots → idx.val = final := by
      intro hslot
      rcases Level.advance_val hdue with ⟨hmod, hback⟩ | ⟨_, hadd⟩
      · -- the wheel went back by a turn
        have hidx : idx.val + k.turn = final := hback.trans hval
        by_cases hd : k = .d
        · subst hd
          simp only [Level.turn] at hidx
          omega
        · have hround : idx.val % k.turn = 0 := by
            rw [← hback, Nat.add_mod_right] at hmod
            exact hmod
          rw [Level.stage_slot] at hslot
          exact absurd (Level.slot_zero hd hround) hslot
      · exact hadd.trans hval
    refine (listForEachPass_all hfinal hlast fuel hclear₁ rfl (next_head_cases hR _)).imp ?_
    rintro mgr' ⟨hidx, hclear'⟩
    exact ⟨hidx ▸ hcarry, hclear'⟩
  · rw [if_neg fun hdue => hidle (Level.due_iff.1 hdue)]
    exact Traced.All.pure ⟨hcarry, lists, timers, hclear⟩

/-- A tick: every point of it, and the state behind it. -/
theorem ucTimerCheckTimeoutPass_all (fuel : Nat) (hclear : Clear mgr lists timers)
    (hclock : mgr.idx.val + 1 < 2 ^ 31) :
    Traced.All (Point.Sound (mgr.idx.val + 1))
      (fun mgr' => mgr'.idx.val = mgr.idx.val + 1 ∧
        ∃ lists' timers', Clear mgr' lists' timers')
      (ucTimerCheckTimeoutPass fuel mgr) := by
  have hstart : Point.Sound (mgr.idx.val + 1) { mgr := mgr, reinsert := none } := by
    refine ⟨hclear.empty, ?_⟩
    intro a ha
    cases ha
  refine (Traced.All.log hstart).bind fun _ _ => ?_
  -- what is left to carry, beside the invariant
  let J : List Stage → UcTimerManager A F X → Prop := fun rest mgr' =>
    ∃ ks : List Level, rest = ks.map Level.stage ∧ Carry ks mgr'.idx (mgr.idx.val + 1) ∧
      ∃ lists' timers', Clear mgr' lists' timers'
  have hstep : ∀ stage rest mgr', J (stage :: rest) mgr' →
      Traced.All (Point.Sound (mgr.idx.val + 1)) (J rest) (stage.pass fuel mgr') := by
    rintro stage rest mgr' ⟨ks, hks, hcarry, lists', timers', hclear'⟩
    cases ks with
    | nil => cases hks
    | cons k ks =>
        cases hks
        refine (Level.pass_all hclock hclear' hcarry).imp ?_
        rintro mgr'' ⟨hcarry', hclear''⟩
        exact ⟨ks, rfl, hcarry', hclear''⟩
  have hlt : mgr.idx.val + 1 < 86400000 * 65536 := by omega
  have hJ : J stages mgr := ⟨levels, rfl, carry_levels hlt, lists, timers, hclear⟩
  refine (Traced.All.fold hstep stages hJ).imp ?_
  rintro mgr' ⟨ks, hks, hcarry, hclear'⟩
  cases ks with
  | nil => exact ⟨hcarry, hclear'⟩
  | cons k ks => cases hks

end Tick

/-! ## Runs -/

section Runs

variable {mgr mgr' : UcTimerManager A F X} {lists : Slot → List A} {timers : A → Timer F X}

omit [DecidableEq A] in
theorem clear_empty (mem : A → UcTimerItem F X) :
    Clear (emptyManager mem) (fun _ => []) fun a => { slot := none, item := mem a } :=
  ⟨emptyManager_represents mem, intervals_empty mem, fun _ _ hs => by cases hs⟩

theorem Clear.add (hclear : Clear mgr lists timers) (hclock : mgr.idx.val < 2 ^ 31)
    {malloc hdl : Option A} {millisecond ttl : Nat} {cb : Option F} {arg : X}
    (hfresh : ∀ a, malloc = some a → mgr.links.live (Loc.item a) = false)
    (hadd : ucTimerAddDo malloc millisecond ttl cb arg mgr = some (mgr', hdl)) :
    mgr'.idx = mgr.idx ∧ ∃ lists' timers', Clear mgr' lists' timers' := by
  rcases ucTimerAddDo_step hclear.represents hfresh hadd with
    rfl | ⟨a, it, lists₂, _, ⟨f, rfl⟩, hpos, hmax, hR₂, hidx₂, _⟩
  · exact ⟨rfl, lists, timers, hclear⟩
  · refine ⟨hidx₂, lists₂, _, hclear.update hR₂ ?_⟩
    intro s hs
    -- a deadline is never 0
    have hdeadline : 0 < (newItem mgr.idx millisecond ttl f arg).next.val := by
      have hval : (newItem mgr.idx millisecond ttl f arg).next.val = mgr.idx.val + millisecond :=
        val_next hclock hmax
      rw [hval]
      exact Nat.add_pos_right _ hpos
    exact ⟨Option.some.inj hs ▸ addSlot_ne_zero hdeadline, hpos, hmax⟩

theorem Clear.delete (hclear : Clear mgr lists timers) {a : A} {ret : Int}
    (hlive : mgr.links.live (Loc.item a) = true) (hok : Kept mgr a)
    (hdelete : ucTimerDeleteDo (some a) mgr = some (mgr', ret)) :
    mgr'.idx = mgr.idx ∧ ∃ lists' timers', Clear mgr' lists' timers' := by
  rcases hclear.represents.delete hlive hok hdelete with ⟨hR', hidx, _⟩
  exact ⟨hidx, _, _, hclear.update hR' fun _ hs => by cases hs⟩

/-- Every state of a run, as long as the clock fits an `int`. -/
theorem Run.clear (mem : A → UcTimerItem F X) {n : Nat}
    (hrun : Run Kept (emptyManager mem) n mgr) (hn : n < 2 ^ 31) :
    mgr.idx.val = n ∧ ∃ lists timers, Clear mgr lists timers := by
  induction hrun with
  | start => exact ⟨val_emptyManager mem, _, _, clear_empty mem⟩
  | add _ hfresh hadd ih =>
      rcases ih hn with ⟨hclock, lists, timers, hclear⟩
      rcases hclear.add (hclock ▸ hn) hfresh hadd with ⟨hidx, hclear'⟩
      exact ⟨hidx ▸ hclock, hclear'⟩
  | @tick n fuel mid mgr' _ htick ih =>
      rcases ih (Nat.lt_of_succ_lt hn) with ⟨hclock, lists, timers, hclear⟩
      subst hclock
      have hall := ucTimerCheckTimeoutPass_all fuel hclear hn
      rw [← result_ucTimerCheckTimeoutPass] at htick
      exact hall.result mgr' htick
  | delete _ hlive hok hdelete ih =>
      rcases ih hn with ⟨hclock, lists, timers, hclear⟩
      rcases hclear.delete hlive hok hdelete with ⟨hidx, hclear'⟩
      exact ⟨hidx ▸ hclock, hclear'⟩

/-- The first lists of the lower wheels after `n` ticks and during the next tick. -/
structure SlotZero (mgr : UcTimerManager A F X) (n : Nat) : Prop where
  clock : mgr.idx.val = n
  /-- they are empty at the start of the tick -/
  start : ZeroEmpty mgr.links
  /-- the points are those of the tick -/
  tick : ∀ fuel, (ucTimerCheckTimeoutPass fuel mgr).result = ucTimerCheckTimeout fuel mgr
  /-- and empty at every point of it -/
  during : n + 1 < 2 ^ 31 → ∀ fuel, ∀ p ∈ (ucTimerCheckTimeoutPass fuel mgr).points,
    ZeroEmpty p.mgr.links
  /-- `uc_timer_node_reinsert` reads the clock of after the tick -/
  reinsert : n + 1 < 2 ^ 31 → ∀ fuel, ∀ p ∈ (ucTimerCheckTimeoutPass fuel mgr).points,
    ∀ a, p.reinsert = some a → p.mgr.idx.val = n + 1

/-- In every state that additions, ticks and deletions that keep the neighbours reach, the first
lists of the millisecond, second, minute and hour wheel are empty, and they stay so through the
next tick; a timer that is put back in it reads the number of the ticks, this one included. -/
theorem slotZero_empty (mem : A → UcTimerItem F X) {n : Nat}
    (hrun : Run Kept (emptyManager mem) n mgr) (hn : n < 2 ^ 31) : SlotZero mgr n := by
  rcases hrun.clear mem hn with ⟨hclock, lists, timers, hclear⟩
  subst hclock
  refine ⟨rfl, hclear.empty, result_ucTimerCheckTimeoutPass mgr, ?_, ?_⟩
  · intro hnext fuel p hp
    exact ((ucTimerCheckTimeoutPass_all fuel hclear hnext).points p hp).empty
  · intro hnext fuel p hp
    exact ((ucTimerCheckTimeoutPass_all fuel hclear hnext).points p hp).carried

end Runs

/-- A timer of 1 millisecond on a fresh wheel: the next tick puts it back. -/
theorem slotZero_empty_again :
    ∃ mgr, ucTimerAddDo (some 0) 1 0 (some ()) () (emptyManager fun _ : Nat => blankItem) =
        some (mgr, some 0) ∧
      (ucTimerCheckTimeoutPass 3 mgr).points.map Point.reinsert =
        [none, none, none, none, some 0, none, none] ∧
      SlotZero mgr 0 := by
  have hpoints : ((ucTimerAddDo (some 0) 1 0 (some ()) ()
      (emptyManager fun _ : Nat => blankItem)).map fun r =>
        (ucTimerCheckTimeoutPass 3 r.1).points.map Point.reinsert) =
      some [none, none, none, none, some 0, none, none] := by
    decide
  have hmax : 1 < timerIntervalMax := by decide
  have hR := emptyManager_represents fun _ : Nat => blankItem
  rcases ucTimerAddDo_spec (a := 0) hR rfl Nat.one_pos hmax 0 () () with ⟨mgr, _, hadd, _⟩
  rw [hadd] at hpoints
  refine ⟨mgr, hadd, Option.some.inj hpoints, slotZero_empty (fun _ => blankItem) ?_ (by decide)⟩
  exact .add .start (fun a ha => by cases ha; rfl) hadd

end Time
end UtilsC

import Ost.Session.Coverage
import Ost.Session.Holdings
import Ost.Target.Supply

/-!
# The medium over whole runs

On a disk whose buffers are the medium, every byte of the medium that changes was sent by an
initiator for a command that addresses it and has not been answered (`media_isolated`).  In a run
in which no command has data in the blocks that another unanswered command addresses, the medium
holds what the answered commands have stored, in the order in which their callbacks were called,
and the data of the commands that are not answered yet (`media_consistent`).
-/

namespace Ost.Target

open Ost.Iscsi Ost.Util Ost.Param Ost.Prog Ost.Disk

/-! ## What was committed -/

section Committed

variable {cfg : DiskConfig} {f g : Nat → UInt8} {l l' : List DevEvent} {x i c : Nat} {t : TargetCmd}

/-- What an event means for the medium: the data of a command are stored when its callback is
called. -/
def DevEvent.commit (cfg : DiskConfig) (f : Nat → UInt8) : DevEvent → Nat → UInt8
  | .queued _ _ => f
  | .callback _ _ t => storeData cfg t.scsiCmd.cdb t.got f

/-- The medium that was `f`, after the data of the commands have been stored in the order in which
their callbacks were called. -/
def committed (cfg : DiskConfig) (l : List DevEvent) (f : Nat → UInt8) : Nat → UInt8 :=
  l.foldl (DevEvent.commit cfg) f

theorem committed_append : committed cfg (l ++ l') f = committed cfg l' (committed cfg l f) :=
  List.foldl_append

theorem committed_of_empty (h : ∀ j d t, DevEvent.callback j d t ∈ l → t.got = []) :
    committed cfg l f = f := by
  induction l generalizing f with
  | nil => rfl
  | cons e l ih =>
    have htail : committed cfg l (DevEvent.commit cfg f e) = DevEvent.commit cfg f e :=
      ih fun j d t ht => h j d t (List.mem_cons_of_mem _ ht)
    refine htail.trans ?_
    cases e with
    | queued => rfl
    | callback j d t =>
      rw [DevEvent.commit, h j d t List.mem_cons_self, storeData_nil]

/-- The callbacks of one command leave the bytes that it does not reach alone. -/
theorem committed_of_not_reaches (h : ∀ e ∈ l, Reports i c t e)
    (hx : ¬Reaches cfg t.scsiCmd.cdb t.got x) : committed cfg l f x = f x := by
  induction l generalizing f with
  | nil => rfl
  | cons e l ih =>
    refine (ih fun e he => h e (List.mem_cons_of_mem _ he)).trans ?_
    rcases h e List.mem_cons_self with rfl | ⟨u, rfl, hgot, hcdb⟩
    · rfl
    · rw [DevEvent.commit, hgot, hcdb, storeData_of_not_reaches hx]

theorem committed_of_eq (h : ∀ e ∈ l, Reports i c t e)
    (hf : f x = storeData cfg t.scsiCmd.cdb t.got g x) (hx : Reaches cfg t.scsiCmd.cdb t.got x) :
    committed cfg l f x = storeData cfg t.scsiCmd.cdb t.got g x := by
  induction l generalizing f with
  | nil => exact hf
  | cons e l ih =>
    refine ih (fun e he => h e (List.mem_cons_of_mem _ he)) ?_
    rcases h e List.mem_cons_self with rfl | ⟨u, rfl, hgot, hcdb⟩
    · exact hf
    · rw [DevEvent.commit, hgot, hcdb]
      exact storeData_of_reaches hx

/-- The callback of a command stores its data. -/
theorem committed_of_reaches (h : ∀ e ∈ l, Reports i c t e) {u : TargetCmd}
    (hu : DevEvent.callback i c u ∈ l) (hx : Reaches cfg t.scsiCmd.cdb t.got x) :
    committed cfg l f x = storeData cfg t.scsiCmd.cdb t.got g x := by
  induction l generalizing f with
  | nil => exact absurd hu List.not_mem_nil
  | cons e l ih =>
    have htail : ∀ e ∈ l, Reports i c t e := fun e he => h e (List.mem_cons_of_mem _ he)
    rcases List.mem_cons.mp hu with rfl | hu
    · have hhead : DevEvent.commit cfg f (.callback i c u) x =
          storeData cfg t.scsiCmd.cdb t.got g x := by
        rcases h _ List.mem_cons_self with he | ⟨u', he, hgot, hcdb⟩
        · cases he
        · cases he
          rw [DevEvent.commit, hgot, hcdb]
          exact storeData_of_reaches hx
      change committed cfg l (DevEvent.commit cfg f (.callback i c u)) x = _
      exact committed_of_eq htail hhead hx
    · exact ih htail hu

/-- Data that are stored on top of those of the same command. -/
theorem storeData_of_append {cdb : Bytes} {ps qs : List (Nat × Bytes)}
    (hx : Reaches cfg cdb (ps ++ qs) x)
    (hf : Reaches cfg cdb ps x → f x = storeData cfg cdb ps g x) :
    storeData cfg cdb qs f x = storeData cfg cdb (ps ++ qs) g x := by
  rw [storeData_append]
  by_cases hps : Reaches cfg cdb ps x
  · exact storeData_congr (hf hps)
  · exact storeData_of_reaches ((reaches_append.mp hx).resolve_left hps)

end Committed

/-! ## Commands that are not answered -/

/-- A command of the daemon. -/
def World.cmd (w : World) (i c : Nat) : TargetCmd := (w.slots i).pool.cmdMem c

/-- A command that is not answered has data at the place `x` of the medium. -/
def TargetCmd.Pending (cfg : DiskConfig) (t : TargetCmd) (x : Nat) : Prop :=
  t.scsiCmd.sendData = false ∧ Reaches cfg t.scsiCmd.cdb t.got x

/-- Neither of two commands is answered, and the second has data in the blocks of the first. -/
def TargetCmd.Clashes (cfg : DiskConfig) (t u : TargetCmd) : Prop :=
  t.scsiCmd.sendData = false ∧ u.scsiCmd.sendData = false ∧
    ∃ r ∈ (writeSpan cfg t.scsiCmd.cdb).toList, ∃ r' ∈ (writeSpan cfg u.scsiCmd.cdb).toList,
      ∃ p ∈ u.got, 0 < p.2.length ∧ ¬Apart r (r'.1 + p.1, p.2.length)

instance (cfg : DiskConfig) (t u : TargetCmd) : Decidable (TargetCmd.Clashes cfg t u) :=
  inferInstanceAs (Decidable (_ ∧ _ ∧ _))

/-- The commands that went to the device, with their slots. -/
def Device.accepted (d : Device) : List (Nat × Nat) :=
  d.log.filterMap fun
    | .queued i c => some (i, c)
    | .callback _ _ _ => none

/-- No command has data in the blocks that another unanswered command addresses. -/
def World.Apart (w : World) : Prop :=
  ∀ k ∈ w.dev.accepted, ∀ l ∈ w.dev.accepted, k ≠ l →
    ¬TargetCmd.Clashes w.dev.cfg (w.cmd k.1 k.2) (w.cmd l.1 l.2)

instance (w : World) : Decidable w.Apart := inferInstanceAs (Decidable (∀ k ∈ _, _))

theorem mem_accepted {d : Device} {i c : Nat} :
    (i, c) ∈ d.accepted ↔ DevEvent.queued i c ∈ d.log := by
  refine ⟨fun h => ?_, fun h => List.mem_filterMap.mpr ⟨_, h, rfl⟩⟩
  obtain ⟨e, he, heq⟩ := List.mem_filterMap.mp h
  cases e with
  | queued j d =>
    obtain ⟨rfl, rfl⟩ := Prod.mk.inj (Option.some.inj heq)
    exact he
  | callback => exact absurd heq.symm (Option.some_ne_none _)

/-- Where a command has data that are pending no other unanswered command stores any. -/
theorem TargetCmd.Pending.not_reaches {cfg : DiskConfig} {t u : TargetCmd} {x : Nat}
    {ps : List (Nat × Bytes)} (h : u.Pending cfg x) (hn : ¬TargetCmd.Clashes cfg t u)
    (ht : t.scsiCmd.sendData = false) (hps : InSpan cfg t.scsiCmd.cdb ps) :
    ¬Reaches cfg t.scsiCmd.cdb ps x := by
  intro hx
  obtain ⟨r, hr, hxr⟩ := hx.inSpan hps
  obtain ⟨hu, r', hr', p, hp, hxp⟩ := h
  have hlt := hxp.2
  have hle := hxp.1
  dsimp only at hlt hle
  refine hn ⟨ht, hu, r, Option.mem_toList.mpr hr, r', Option.mem_toList.mpr hr', p,
    hp, by omega, ?_⟩
  rintro (hap | hap)
  · have := hxr.2
    dsimp only at hap
    omega
  · have := hxr.1
    dsimp only at hap
    omega

/-! ## Every reachable state -/

/-- The medium was `f₀` at the start. -/
structure Consistent (f₀ : Nat → UInt8) (w : World) : Prop where
  /-- Where no command has data that are pending, the medium is what the callbacks say. -/
  settled : ∀ x, (∀ i c, ¬(w.cmd i c).Pending w.dev.cfg x) →
    w.dev.mem .media x = committed w.dev.cfg w.dev.log f₀ x
  /-- Where a command has data that are pending, the medium holds these. -/
  pending : ∀ i c x, (w.cmd i c).Pending w.dev.cfg x → ∀ f,
    w.dev.mem .media x = storeData w.dev.cfg (w.cmd i c).scsiCmd.cdb (w.cmd i c).got f x

section Steps

variable {f₀ : Nat → UInt8} {i : Nat} {w w' : World}

theorem Consistent.rests (h : Consistent f₀ w) (hr : Rests (w.view i) (w'.view i))
    (hothers : ∀ j, j ≠ i → (w'.slots j).pool.cmdMem = (w.slots j).pool.cmdMem) :
    Consistent f₀ w' := by
  have hmedia : w'.dev.mem .media = w.dev.mem .media := hr.media
  have hcfg : w'.dev.cfg = w.dev.cfg := hr.cfg
  obtain ⟨l, hl, hempty⟩ := hr.log
  have hlog : committed w'.dev.cfg w'.dev.log f₀ = committed w.dev.cfg w.dev.log f₀ := by
    rw [hcfg, show w'.dev.log = w.dev.log ++ l from hl, committed_append, committed_of_empty hempty]
  have hcmd (j c : Nat) : w'.cmd j c = w.cmd j c ∨
      ∀ x, ¬(w.cmd j c).Pending w.dev.cfg x ∧ ¬(w'.cmd j c).Pending w.dev.cfg x := by
    by_cases hj : j = i
    · subst hj
      rcases hr.cmds c with hc | ⟨hgot', hgot⟩
      · exact .inl hc
      · refine .inr fun x => ⟨fun ⟨hopen, hx⟩ => ?_, fun ⟨_, hx⟩ => ?_⟩
        · rcases hgot with hclosed | hgot
          · exact absurd (hopen.symm.trans hclosed) Bool.false_ne_true
          · rw [show (w.cmd j c).got = [] from hgot] at hx
            exact not_reaches_nil hx
        · rw [show (w'.cmd j c).got = [] from hgot'] at hx
          exact not_reaches_nil hx
    · exact .inl (congrFun (hothers j hj) c)
  refine ⟨fun x hx => ?_, fun j c x hx f => ?_⟩
  · rw [hmedia, hlog]
    refine h.settled x fun j c hp => ?_
    rcases hcmd j c with hc | hc
    · exact hx j c (by rwa [hc, hcfg])
    · exact (hc x).1 hp
  · rw [hcfg] at hx
    rcases hcmd j c with hc | hc
    · rw [hc] at hx
      rw [hmedia, hcfg, hc]
      exact h.pending j c x hx f
    · exact absurd hx (hc x).2

theorem Consistent.serves {c : Nat} (h : Consistent f₀ w) (hh : ∀ j, Holding j (w.view j))
    (hap : w.Apart) (hs : Serves i c (w.view i) (w'.view i))
    (hothers : ∀ j, j ≠ i → (w'.slots j).pool.cmdMem = (w.slots j).pool.cmdMem) :
    Consistent f₀ w' := by
  have hcfg : w'.dev.cfg = w.dev.cfg := hs.stores.cfg
  have hcdb : (w'.cmd i c).scsiCmd.cdb = (w.cmd i c).scsiCmd.cdb := hs.stores.cdb
  obtain ⟨ps, hgot, hin, hmedia⟩ := hs.stores.stored
  obtain ⟨l, hl, hreports, -⟩ := hs.stores.log
  have hgot : (w'.cmd i c).got = (w.cmd i c).got ++ ps := hgot
  have hin : InSpan w.dev.cfg (w.cmd i c).scsiCmd.cdb ps := hin
  have hmedia : w'.dev.mem .media =
    storeData w.dev.cfg (w.cmd i c).scsiCmd.cdb ps (w.dev.mem .media) := hmedia
  have hl : w'.dev.log = w.dev.log ++ l := hl
  have hreports : ∀ e ∈ l, Reports i c (w'.cmd i c) e := hreports
  have hcmd (j d : Nat) (hne : (j, d) ≠ (i, c)) : w'.cmd j d = w.cmd j d := by
    by_cases hj : j = i
    · subst hj
      exact hs.others d fun hd => hne (hd ▸ rfl)
    · exact congrFun (hothers j hj) d
  have hlog : committed w'.dev.cfg w'.dev.log f₀ =
      committed w.dev.cfg l (committed w.dev.cfg w.dev.log f₀) := by
    rw [hcfg, hl, committed_append]
  -- the command is open, or it has no place on the medium
  have hopen (x : Nat) (hx : Reaches w.dev.cfg (w.cmd i c).scsiCmd.cdb ((w.cmd i c).got ++ ps) x) :
      (w.cmd i c).scsiCmd.sendData = false := by
    obtain ⟨r, hr, -⟩ := hx
    refine hs.wasOpen.resolve_right fun hnone => ?_
    have hnone : writeSpan w.dev.cfg (w.cmd i c).scsiCmd.cdb = none := hnone
    exact absurd (hnone.symm.trans hr).symm (Option.some_ne_none r)
  have hstored (x : Nat) (hx : Reaches w.dev.cfg (w.cmd i c).scsiCmd.cdb ((w.cmd i c).got ++ ps) x)
      (f : Nat → UInt8) : w'.dev.mem .media x =
        storeData w.dev.cfg (w.cmd i c).scsiCmd.cdb ((w.cmd i c).got ++ ps) f x := by
    rw [hmedia]
    exact storeData_of_append hx fun hx' => h.pending i c x ⟨hopen x hx, hx'⟩ f
  -- the data of the other commands stay
  have hkeeps (j d x : Nat) (hne : (j, d) ≠ (i, c)) (hp : (w.cmd j d).Pending w.dev.cfg x) :
      w'.dev.mem .media x = w.dev.mem .media x := by
    rw [hmedia]
    refine storeData_of_not_reaches fun hx => ?_
    have hdata : (w.cmd j d).got ≠ [] := fun hnil => not_reaches_nil (hnil ▸ hp.2)
    have hn := hap (i, c) (mem_accepted.mpr hs.queued) (j, d)
      (mem_accepted.mpr ((hh j).data d hdata)) hne.symm
    exact hp.not_reaches hn (hopen x (reaches_append.mpr (.inr hx))) hin hx
  refine ⟨fun x hx => ?_, fun j d x hp f => ?_⟩
  · rw [hlog]
    by_cases hreach : Reaches w.dev.cfg (w.cmd i c).scsiCmd.cdb ((w.cmd i c).got ++ ps) x
    · have hclosed : (w'.cmd i c).scsiCmd.sendData = true := by
        by_contra hne
        exact hx i c ⟨by simpa using hne, by rw [hcfg, hcdb, hgot]; exact hreach⟩
      obtain ⟨u, hu⟩ := hs.closed (hopen x hreach) hclosed
      have hu : DevEvent.callback i c u ∈ w'.dev.log.drop w.dev.log.length := hu
      rw [hl, List.drop_left] at hu
      rw [← hcdb, ← hgot] at hreach
      rw [committed_of_reaches hreports hu hreach, hcdb, hgot]
      rw [hcdb, hgot] at hreach
      exact hstored x hreach f₀
    · have hnot : ¬Reaches w.dev.cfg (w'.cmd i c).scsiCmd.cdb (w'.cmd i c).got x := by
        rwa [hcdb, hgot]
      rw [committed_of_not_reaches hreports hnot, hmedia,
        storeData_of_not_reaches fun hps => hreach (reaches_append.mpr (.inr hps))]
      refine h.settled x fun j d hp => ?_
      by_cases hne : (j, d) = (i, c)
      · obtain ⟨rfl, rfl⟩ := Prod.mk.inj hne
        exact hreach (reaches_append.mpr (.inl hp.2))
      · exact hx j d (by rwa [hcmd j d hne, hcfg])
  · rw [hcfg] at hp ⊢
    by_cases hne : (j, d) = (i, c)
    · obtain ⟨rfl, rfl⟩ := Prod.mk.inj hne
      have hx := hp.2
      rw [hcdb, hgot] at hx ⊢
      exact hstored x hx f
    · rw [hcmd j d hne] at hp ⊢
      rw [hkeeps j d x hne hp]
      exact h.pending j d x hp f

end Steps

/-! ## Runs -/

section Runs

variable {env : Env} {Ok : World → Event → Prop} {w₀ w w' : World} {e : Event}

/-- The disk stays, and the holdings are kept, in every reachable state. -/
theorem holding_reachable (hw₀ : w₀.Starts) (hst : DiskType.staged w₀.dev.cfg = false)
    (h : Reach (step env) Ok w₀ w) : w.dev.cfg = w₀.dev.cfg ∧ ∀ i, Holding i (w.view i) := by
  induction h with
  | refl =>
    refine ⟨rfl, fun i => holding_fresh (hw₀.slots i) ?_⟩
    simp [Device.jobs, World.view, hw₀.queue]
  | @tail w w' e h ok he ih =>
    have hst' : DiskType.staged w.dev.cfg = false := by rw [ih.1, hst]
    obtain ⟨hh, i, -, ha⟩ := ((step_spec env e w).of_ret he).affects (books_reachable hw₀ h) ih.2
      (books_reachable hw₀ (h.tail ok he)) hst'
    refine ⟨?_, hh⟩
    rw [← ih.1]
    cases ha.effect with
    | rests hr => exact hr.cfg
    | serves hs => exact hs.stores.cfg

/-- What a step of a run does to the medium and to the commands. -/
theorem affects_of_step (hw₀ : w₀.Starts) (hst : DiskType.staged w₀.dev.cfg = false)
    (h : Reach (step env) Ok w₀ w) (ok : Ok w e) (he : step env e w = .ret ⟨⟩ w') :
    ∃ i, (∀ j, e = .rx j → i = j) ∧ w.Affects i w' := by
  obtain ⟨hcfg, hh⟩ := holding_reachable hw₀ hst h
  exact (((step_spec env e w).of_ret he).affects (books_reachable hw₀ h) hh
    (books_reachable hw₀ (h.tail ok he)) (by rw [hcfg, hst])).2

/-- In every reachable state, an event leaves the medium as it is, or it stores data that were added
to those of one unanswered command, in the blocks that this command addresses.  A PDU stores the
data of a command of its own session. -/
theorem media_isolated (hw₀ : w₀.Starts) (hst : DiskType.staged w₀.dev.cfg = false)
    (h : Reach (step env) Ok w₀ w) (ok : Ok w e) (he : step env e w = .ret ⟨⟩ w') :
    w'.dev.mem .media = w.dev.mem .media ∨ ∃ i c ps, (∀ j, e = .rx j → i = j) ∧
      (w.cmd i c).scsiCmd.sendData = false ∧ (w'.cmd i c).got = (w.cmd i c).got ++ ps ∧
      InSpan w.dev.cfg (w.cmd i c).scsiCmd.cdb ps ∧ w'.dev.mem .media =
        storeData w.dev.cfg (w.cmd i c).scsiCmd.cdb ps (w.dev.mem .media) := by
  obtain ⟨i, hi, ha⟩ := affects_of_step hw₀ hst h ok he
  cases ha.effect with
  | rests hr => exact .inl hr.media
  | @serves c hs =>
    obtain ⟨ps, hgot, hin, hmedia⟩ := hs.stores.stored
    rcases hs.wasOpen with hopen | hnone
    · exact .inr ⟨i, c, ps, hi, hopen, hgot, hin, hmedia⟩
    · exact .inl (hmedia.trans (storeData_none hnone))

/-- The medium is consistent in every state of a run in which no commands clash. -/
theorem consistent_reachable (hw₀ : w₀.Starts) (hst : DiskType.staged w₀.dev.cfg = false)
    (h : Reach (step env) (fun w _ => w.Apart) w₀ w) :
    Consistent (w₀.dev.mem .media) w := by
  induction h with
  | refl =>
    have hnone (i c : Nat) (x : Nat) : ¬(w₀.cmd i c).Pending w₀.dev.cfg x := by
      rintro ⟨-, hx⟩
      have hgot : (w₀.cmd i c).got = [] := by
        simp [World.cmd, hw₀.slots, Slot.fresh, TargetCmd.zero]
      rw [hgot] at hx
      exact not_reaches_nil hx
    refine ⟨fun x _ => ?_, fun i c x hp => absurd hp (hnone i c x)⟩
    rw [hw₀.log]
    rfl
  | @tail w w' e h ok he ih =>
    obtain ⟨i, -, ha⟩ := affects_of_step hw₀ hst h ok he
    cases ha.effect with
    | rests hr => exact ih.rests hr ha.others
    | serves hs => exact ih.serves (holding_reachable hw₀ hst h).2 ok hs ha.others

/-- In every run in which no command has data in the blocks of another unanswered command, the
medium holds the data of the answered commands in the order of their callbacks, wherever no data
are pending, and elsewhere the data that are pending. -/
theorem media_consistent (hw₀ : w₀.Starts) (hst : DiskType.staged w₀.dev.cfg = false)
    (h : Reach (step env) (fun w _ => w.Apart) w₀ w) (x : Nat) :
    ((∀ i c, ¬(w.cmd i c).Pending w.dev.cfg x) →
      w.dev.mem .media x = committed w.dev.cfg w.dev.log (w₀.dev.mem .media) x) ∧
    ∀ i c, (w.cmd i c).Pending w.dev.cfg x → ∀ f,
      w.dev.mem .media x = storeData w.dev.cfg (w.cmd i c).scsiCmd.cdb (w.cmd i c).got f x :=
  have hc := consistent_reachable hw₀ hst h
  ⟨hc.settled x, fun i c => hc.pending i c x⟩

/-- What the LUN worker does with the command at the front of the queue. -/
theorem step_lun {i c : Nat} {q : Fifo (Nat × Nat)}
    (hq : w.dev.cmdQueue.remove = some ((i, c), q)) :
    ensures (step env .lun) (fun _ w' => ∃ s, lunWorker i c ((w.popped q).view i) = .ret ⟨⟩ s ∧
      w' = (w.popped q).put i s) w := by
  simp only [step, lunRound, ensures, wp_bind, wp_get, hq]
  rw [wp_modify]
  exact onSlot_spec _ _ (w.popped q)

/-- In every run in which no command has data in the blocks of another unanswered command, a read
sends what the answered commands have stored, wherever no data are pending. -/
theorem reads_committed {i c : Nat} {q : Fifo (Nat × Nat)} {r : Nat × Nat} (hw₀ : w₀.Starts)
    (hst : DiskType.staged w₀.dev.cfg = false)
    (h : Reach (step env) (fun w _ => w.Apart) w₀ w)
    (hq : w.dev.cmdQueue.remove = some ((i, c), q))
    (hread : readRange (w.cmd i c).scsiCmd.cdb = some r) (he : step env .lun w = .ret ⟨⟩ w') :
    ∃ l, (w'.slots i).conn.sent = (w.slots i).conn.sent ++ l ∧ ∀ x ∈ l, ∀ d,
      x.pdu = .readData d → x.ok = true →
        d.offset.toNat + x.data.length ≤ r.2 * w.dev.cfg.blockLen ∧
        ∀ k (hk : k < x.data.length),
          (∀ j d', ¬(w.cmd j d').Pending w.dev.cfg
          (r.1 * w.dev.cfg.blockLen + d.offset.toNat + k)) →
          x.data[k] = committed w.dev.cfg w.dev.log (w₀.dev.mem .media)
            (r.1 * w.dev.cfg.blockLen + d.offset.toNat + k) := by
  obtain ⟨hcfg, hh⟩ := holding_reachable hw₀ hst h
  have hc := consistent_reachable hw₀ hst h
  obtain ⟨s, hs, rfl⟩ := (step_lun hq).of_ret he
  have hst' : DiskType.staged ((w.popped q).view i).dev.cfg = false := by
    change DiskType.staged w.dev.cfg = false
    rw [hcfg, hst]
  obtain ⟨l, hl, hall⟩ := (lunWorker_posts (s := (w.popped q).view i) hst' ((hh i).aimed c) rfl
    hread).of_ret hs
  refine ⟨l, ?_, fun x hx d hd hok => ?_⟩
  · rw [World.slots_put_self]
    exact hl
  · obtain ⟨hle, hdata⟩ := hall x hx d hd hok
    refine ⟨hle, fun k hk hpend => (hdata k hk).trans (hc.settled _ hpend)⟩

end Runs

/-! ## Runs on a small daemon -/

/-- A write of a block whose data come in two halves. -/
def halves : List Event :=
  [.accept (client (smallLogin ++ smallWrite 5 ++ smallData 0 5 256 ++ smallData 0x80 5 0)), .rx 0,
    .rx 0, .lun]

/-- The first half is stored in the second half of the block. -/
theorem media_isolated_halves : ∃ w w', Reach (step smallEnv) (fun _ _ => True) smallWorld w ∧
    step smallEnv (.rx 0) w = .ret ⟨⟩ w' ∧ w'.dev.mem .media 256 ≠ w.dev.mem .media 256 ∧
      ∃ i c ps, (∀ j, Event.rx 0 = .rx j → i = j) ∧ (w.cmd i c).scsiCmd.sendData = false ∧
        (w'.cmd i c).got = (w.cmd i c).got ++ ps ∧
        InSpan w.dev.cfg (w.cmd i c).scsiCmd.cdb ps ∧ w'.dev.mem .media =
          storeData w.dev.cfg (w.cmd i c).scsiCmd.cdb ps (w.dev.mem .media) := by
  obtain ⟨w, h, w', he, hne⟩ : ∃ w, Reach (step smallEnv) (fun _ _ => True) smallWorld w ∧
      ∃ w', step smallEnv (.rx 0) w = .ret ⟨⟩ w' ∧
        w'.dev.mem .media 256 ≠ w.dev.mem .media 256 :=
    exists_reach halves (by decide +kernel)
  refine ⟨w, w', h, he, hne, ?_⟩
  exact (media_isolated starts_smallWorld (by decide) h trivial he).resolve_left
    fun hmedia => hne (congrFun hmedia 256)

/-- After both halves have come and the callback was called, the medium is consistent. -/
theorem media_consistent_halves : ∃ w, Reach (step smallEnv) (fun w _ => w.Apart) smallWorld w ∧
    (w.cmd 0 0).scsiCmd.sendData = true ∧ w.dev.mem .media 256 = 7 ∧ ∀ x,
      ((∀ i c, ¬(w.cmd i c).Pending w.dev.cfg x) →
        w.dev.mem .media x = committed w.dev.cfg w.dev.log (smallWorld.dev.mem .media) x) ∧
      ∀ i c, (w.cmd i c).Pending w.dev.cfg x → ∀ f,
        w.dev.mem .media x = storeData w.dev.cfg (w.cmd i c).scsiCmd.cdb (w.cmd i c).got f x := by
  obtain ⟨w, h, hdone, hdata⟩ : ∃ w, Reach (step smallEnv) (fun w _ => w.Apart) smallWorld w ∧
      (w.cmd 0 0).scsiCmd.sendData = true ∧ w.dev.mem .media 256 = 7 :=
    exists_reach (halves ++ [.rx 0, .rx 0, .lun]) (by decide +kernel)
  exact ⟨w, h, hdone, hdata, fun x => media_consistent starts_smallWorld (by decide) h x⟩

/-- A read of one block. -/
def smallRead (tag : UInt32) : Bytes :=
  put8 (put8 (request 0x01 0xc0 0 tag 512 0) 32 opRead10) 40 1

/-- A read of the block after the write was answered sends what was written. -/
theorem reads_committed_block : ∃ w w' q, Reach (step smallEnv) (fun w _ => w.Apart) smallWorld w ∧
    w.dev.cmdQueue.remove = some ((0, 1), q) ∧
    readRange (w.cmd 0 1).scsiCmd.cdb = some (0, 1) ∧ step smallEnv .lun w = .ret ⟨⟩ w' ∧
    ((w'.slots 0).conn.sent.any fun x => x.ok && x.data = List.replicate 512 7) = true ∧
    ∃ l, (w'.slots 0).conn.sent = (w.slots 0).conn.sent ++ l ∧ ∀ x ∈ l, ∀ d,
      x.pdu = .readData d → x.ok = true →
        d.offset.toNat + x.data.length ≤ 1 * w.dev.cfg.blockLen ∧
        ∀ k (hk : k < x.data.length),
          (∀ j d', ¬(w.cmd j d').Pending w.dev.cfg (0 * w.dev.cfg.blockLen + d.offset.toNat + k)) →
          x.data[k] = committed w.dev.cfg w.dev.log (smallWorld.dev.mem .media)
            (0 * w.dev.cfg.blockLen + d.offset.toNat + k) := by
  obtain ⟨w, h, hq, hread, w', he, hsent⟩ : ∃ w,
      Reach (step smallEnv) (fun w _ => w.Apart) smallWorld w ∧
      w.dev.cmdQueue.remove.map (·.1) = some (0, 1) ∧
      readRange (w.cmd 0 1).scsiCmd.cdb = some (0, 1) ∧
      ∃ w', step smallEnv .lun w = .ret ⟨⟩ w' ∧
        ((w'.slots 0).conn.sent.any fun x => x.ok && x.data = List.replicate 512 7) = true :=
    exists_reach [.accept (client (smallLogin ++ smallWrite 5 ++ smallData 0 5 256 ++
      smallData 0x80 5 0 ++ smallRead 6)), .rx 0, .rx 0, .lun, .rx 0, .rx 0, .lun, .rx 0]
      (by decide +kernel)
  obtain ⟨⟨k, q⟩, hq, hk⟩ := Option.map_eq_some_iff.mp hq
  obtain rfl : k = (0, 1) := hk
  exact ⟨w, w', q, h, hq, hread, he, hsent, reads_committed starts_smallWorld
    (by decide) h hq hread he⟩

end Ost.Target

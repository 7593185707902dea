import Cwsd.RigctldPoll

namespace Cwsd.RigctldShutdown

open Runs Effects RigctldServer RigctldSafety RigctldReplies RigctldWork RigctldPoll

def OfWorker : Action → Bool
  | .disconnect | .stop => false
  | _ => true

def Polls : Action → Bool
  | .polled _ | .timeout => true
  | _ => false

/-- An upper bound on the steps up to the end of work, once it has been told to stop in its loop. -/
def stepsLeft (pfdNr : Nat) : Pc → Nat
  | .starting | .returned | .threw => 0
  | .top => 1
  | .flags => 2
  | .sweep _ _ => 3
  | .scanOut scan => 3 + 2 * (pfdNr - scan.index)
  | .scanIn scan => 4 + 2 * (pfdNr - scan.index)
  | .poll => 5 + 2 * pfdNr
  | .connected => 6 + 2 * pfdNr
  | .opening => 7 + 2 * pfdNr
  | .closing => 8 + 2 * pfdNr

def pollsLeft : Pc → Nat
  | .closing | .opening | .connected | .poll => 1
  | _ => 0

/-- The lines that the worker is about to read hold the mode command for which interpret_command has no
defined behaviour. -/
def ReadsUndefined (env : Environment) (w : Work) : Prop :=
  ∃ scan p, w.pc = .scanIn scan ∧ w.pfds[scan.index]? = some p ∧ readFromClient env p.fd w.server = .undefined

/-- The worker has been told to stop after its own store of is_running. -/
structure Stopped (w : Work) : Prop where
  started : w.pc ≠ .starting
  isRunning : w.isRunning = false

/-- Every stop comes before the store that work makes itself. -/
def StopsEarly (w : Work) (a : Action) : Prop := a = .stop → w.pc = .starting

instance (w : Work) (a : Action) : Decidable (StopsEarly w a) := inferInstanceAs (Decidable (_ → _))

/-- What a step of the stopped worker lowers. -/
structure Ends (w w' : Work) (a : Action) : Prop where
  steps : stepsLeft w'.pfdNr w'.pc + (OfWorker a).toNat ≤ stepsLeft w.pfdNr w.pc
  polls : pollsLeft w'.pc + (Polls a).toNat ≤ pollsLeft w.pc

variable {env : Environment} {w w' : Work} {a : Action}

theorem closeRig_pfdNr (h : Mirror w) : (closeRig w).pfdNr ≤ w.pfdNr := by
  rw [closeRig]
  split
  · exact Nat.le_refl _
  · rw [h.pfdNr]
    exact Nat.succ_le_succ (Nat.zero_le _)

theorem isRunning_step (hs : Steps env w a w') (hstarted : w.pc ≠ .starting) (ha : a ≠ .stop) :
    w'.pc ≠ .starting ∧ w'.isRunning = w.isRunning := by
  cases hs with
  | stop => exact absurd rfl ha
  | started hpc => exact absurd hpc hstarted
  | disconnect => exact ⟨hstarted, rfl⟩
  | close hpc =>
      rw [closeRig]
      split <;> exact ⟨by rintro ⟨⟩, rfl⟩
  | opened hpc result => cases result <;> exact ⟨by rintro ⟨⟩, rfl⟩
  | accept hpc hat hzero fd hfd =>
      rw [acceptClient]
      split <;> exact ⟨by rintro ⟨⟩, rfl⟩
  | sweep hpc =>
      rw [sweep]
      split <;> exact ⟨by rintro ⟨⟩, rfl⟩
  | flags hpc hflags =>
      obtain ⟨flags, -, rfl⟩ := Option.map_eq_some_iff.mp hflags
      exact ⟨by rintro ⟨⟩, rfl⟩
  | _ => exact ⟨by rintro ⟨⟩, rfl⟩

theorem stopped_step (h : Stopped w) (hs : Steps env w a w') : Stopped w' := by
  by_cases ha : a = .stop
  · subst ha
    cases hs
    exact ⟨h.started, rfl⟩
  · obtain ⟨hstarted, hrunning⟩ := isRunning_step hs h.started ha
    exact ⟨hstarted, hrunning.trans h.isRunning⟩

structure Unstopped (w : Work) : Prop where
  stays : w.pc ≠ .returned
  isRunning : w.pc ≠ .starting → w.isRunning = true

theorem unstopped_step (h : Unstopped w) (hok : StopsEarly w a) (hs : Steps env w a w') : Unstopped w' := by
  have hrunning (hstarted : w.pc ≠ .starting) : w'.isRunning = true := by
    have ha : a ≠ .stop := fun ha => hstarted (hok ha)
    exact (isRunning_step hs hstarted ha).2.trans (h.isRunning hstarted)
  cases hs with
  | disconnect => exact ⟨h.stays, h.isRunning⟩
  | stop => exact ⟨h.stays, fun hstarted => absurd (hok rfl) hstarted⟩
  | started hpc => exact ⟨by rintro ⟨⟩, fun _ => rfl⟩
  | leave hpc hstop =>
      rw [h.isRunning (by simp [hpc])] at hstop
      cases hstop
  | opened hpc result => cases result <;> exact ⟨by rintro ⟨⟩, fun _ => hrunning (by simp [hpc])⟩
  | sweep hpc => exact ⟨by simp [sweep], fun _ => hrunning (by simp [hpc])⟩
  | lost hpc | live hpc | close hpc | connect hpc | timeout hpc | poll hpc | error hpc | accept hpc | read hpc
  | noInput hpc | write hpc | noOutput hpc | scanned hpc | flags hpc =>
      exact ⟨by rintro ⟨⟩, fun _ => hrunning (by simp [hpc])⟩

theorem index_lt {scan : Scan} {p : PollFd} {r : Revents} {fdToAdd : Int} (h : Scanned w fdToAdd)
    (hat : At w scan p r) :
    scan.index < w.pfdNr := by
  rw [h.pfdNr]
  exact (List.getElem?_eq_some_iff.mp hat.entry).1

theorem stepsLeft_scanOut {scan scan' : Scan} (h : scan'.index = scan.index) (n : Nat) :
    stepsLeft n (.scanOut scan') + 1 ≤ stepsLeft n (.scanIn scan) := by
  simp only [stepsLeft, h]
  omega

theorem stepsLeft_nextIndex {scan scan' : Scan} {n : Nat} (h : scan'.index = scan.index)
    (hlt : scan.index < n) :
    stepsLeft n (nextIndex scan') + 1 ≤ stepsLeft n (.scanOut scan) := by
  simp only [stepsLeft, nextIndex, h]
  omega

theorem ends_scanning (ha : OfWorker a = true ∧ Polls a = false)
    (hsteps : stepsLeft w'.pfdNr w'.pc + 1 ≤ stepsLeft w.pfdNr w.pc) (hpolls : pollsLeft w'.pc = 0) :
    Ends w w' a := by
  constructor
  · rw [ha.1]
    exact hsteps
  · rw [ha.2, hpolls]
    exact Nat.zero_le _

theorem ends_step (hplaced : Placed w) (hstop : Stopped w) (hs : Steps env w a w') : Ends w w' a := by
  cases hs with
  | disconnect | stop => exact ⟨Nat.le_refl _, Nat.le_refl _⟩
  | started hpc => exact absurd hpc hstop.started
  | lost _ _ hrun | live _ _ hrun =>
      rw [hstop.isRunning] at hrun
      cases hrun
  | leave hpc _ | connect hpc | timeout hpc | poll hpc _ _ =>
      constructor <;> simp only [stepsLeft, pollsLeft, hpc, OfWorker, Polls, Bool.toNat_true,
        Bool.toNat_false] <;>
        omega
  | opened hpc result =>
      cases result <;> constructor <;>
        simp only [openRig, stepsLeft, pollsLeft, hpc, OfWorker, Polls, Bool.toNat_true, Bool.toNat_false] <;>
        omega
  | close hpc =>
      rw [Placed, hpc] at hplaced
      have hnr := closeRig_pfdNr hplaced
      constructor
      · simp only [stepsLeft, hpc, OfWorker, Bool.toNat_true]
        omega
      · rw [hpc]
        exact Nat.le_refl 1
  | @error scan p r hpc hat _ =>
      rw [Placed, hpc] at hplaced
      have hnext := stepsLeft_nextIndex (marked_index scan p.fd false) (index_lt hplaced.1 hat)
      refine ends_scanning ⟨rfl, rfl⟩ ?_ rfl
      rw [hpc]
      exact hnext.trans (Nat.le_of_succ_le (stepsLeft_scanOut rfl _))
  | @accept scan _ _ hpc _ _ fd _ =>
      refine ends_scanning ⟨rfl, rfl⟩ ?_ rfl
      rw [hpc, (acceptClient_frame fd w).2.1]
      exact stepsLeft_scanOut rfl _
  | @read scan p _ keep _ hpc _ _ _ _ _ _ =>
      refine ends_scanning ⟨rfl, rfl⟩ ?_ rfl
      rw [hpc]
      exact stepsLeft_scanOut (marked_index scan p.fd keep) _
  | noInput hpc _ _ _ =>
      refine ends_scanning ⟨rfl, rfl⟩ ?_ rfl
      rw [hpc]
      exact stepsLeft_scanOut rfl _
  | @write scan p _ keep _ hpc hat _ _ =>
      rw [Placed, hpc] at hplaced
      have hlt := index_lt hplaced.1 hat
      refine ends_scanning ⟨rfl, rfl⟩ ?_ rfl
      rw [hpc]
      exact stepsLeft_nextIndex (marked_index scan p.fd keep) hlt
  | noOutput hpc hat _ =>
      rw [Placed, hpc] at hplaced
      have hlt := index_lt hplaced.1 hat
      refine ends_scanning ⟨rfl, rfl⟩ ?_ rfl
      rw [hpc]
      exact stepsLeft_nextIndex rfl hlt
  | @scanned scan hpc _ =>
      refine ends_scanning ⟨rfl, rfl⟩ ?_ rfl
      rw [hpc]
      exact Nat.le_add_right 4 _
  | @sweep fdToAdd fdsToRemove hpc =>
      refine ends_scanning ⟨rfl, rfl⟩ ?_ rfl
      rw [hpc]
      exact Nat.le_refl 3
  | flags hpc hflags =>
      obtain ⟨flags, -, rfl⟩ := Option.map_eq_some_iff.mp hflags
      refine ends_scanning ⟨rfl, rfl⟩ ?_ rfl
      rw [hpc]
      exact Nat.le_refl 2

def Reported (w : Work) : Prop :=
  match w.pc with
  | .scanIn scan => scan.revents.length = w.pfdNr
  | .scanOut scan => scan.revents.length = w.pfdNr ∧ scan.index < w.pfdNr
  | _ => True

theorem reported_step (hplaced : Placed w) (h : Reported w) (hs : Steps env w a w') : Reported w' := by
  cases hs with
  | disconnect | stop => exact h
  | poll _ revents hreports => exact hreports.1
  | opened _ result => cases result <;> trivial
  | error hpc hat _ =>
      rw [Reported, hpc] at h
      exact h
  | @accept scan _ _ hpc hat _ fd _ =>
      rw [Placed, hpc] at hplaced
      rw [Reported, hpc] at h
      have hlt := index_lt hplaced.1 hat
      have hnr := (acceptClient_frame fd w).2.1
      exact ⟨h.trans hnr.symm, hnr ▸ hlt⟩
  | @read scan p _ keep _ hpc _ hlt _ _ _ _ =>
      rw [Reported, hpc] at h
      refine ⟨?_, ?_⟩
      · rw [marked_revents]
        exact h
      · rw [marked_index]
        exact hlt
  | noInput hpc hat _ _ =>
      rw [Placed, hpc] at hplaced
      rw [Reported, hpc] at h
      have hlt := index_lt hplaced.1 hat
      exact ⟨h, hlt⟩
  | @write scan p _ keep _ hpc _ _ _ =>
      rw [Reported, hpc] at h
      exact (congrArg List.length (marked_revents scan p.fd keep)).trans h.1
  | noOutput hpc _ _ =>
      rw [Reported, hpc] at h
      exact h.1
  | sweep _ =>
      rw [sweep]
      trivial
  | _ => trivial

theorem reported_run {rigModel serverFd : Int} {as : List Action}
    (h : Run (step env) Rebuilt (start rigModel serverFd) as w) : Placed w ∧ Reported w := by
  have hall : (Keyed w.server ∧ Placed w) ∧ Reported w := by
    apply h.invariant fun v => (Keyed v.server ∧ Placed v) ∧ Reported v
    · exact ⟨placed_start rigModel serverFd, trivial⟩
    · rintro v a v' ⟨⟨hkeyed, hplaced⟩, hreported⟩ - hstep
      have hs := steps_of_step hstep
      exact ⟨placed_step hkeyed hplaced hs, reported_step hplaced hreported hs⟩
  exact ⟨hall.1.2, hall.2⟩

def GoesOn (env : Environment) (w : Work) : Prop := ∃ a, OfWorker a = true ∧ (step env w a).isSome

theorem goesOn_of_workStep (ha : OfWorker a = true) (h : (workStep env w a).isSome) : GoesOn env w := by
  refine ⟨a, ha, ?_⟩
  cases a with
  | disconnect | stop => cases ha
  | _ => exact h

theorem at_of_lt {scan : Scan} {fdToAdd : Int} (h : Scanned w fdToAdd)
    (hreports : scan.revents.length = w.pfdNr) (hlt : scan.index < w.pfdNr) : ∃ p r, At w scan p r := by
  have hentry : scan.index < w.pfds.length := h.pfdNr ▸ hlt
  have hreport : scan.index < scan.revents.length := hreports ▸ hlt
  exact ⟨_, _, List.getElem?_eq_getElem hentry, List.getElem?_eq_getElem hreport⟩

theorem goesOn_scanIn {scan : Scan} {p : PollFd} {r : Revents} (hplaced : Placed w) (hpc : w.pc = .scanIn scan)
    (hlt : scan.index < w.pfdNr) (hat : At w scan p r) : ReadsUndefined env w ∨ GoesOn env w := by
  have hstep (a : Action) : workStep env w a = scanIn env w scan p r a := by
    simp only [workStep, hpc, hlt, if_true, hat.entry, hat.report]
    rfl
  by_cases herror : r.error = true
  · refine .inr (goesOn_of_workStep (a := .advance) rfl ?_)
    rw [hstep, scanIn, if_pos herror]
    rfl
  · by_cases hin : r.pollIn = true
    · by_cases hzero : scan.index = 0
      · refine .inr (goesOn_of_workStep (a := .accepted (-1)) rfl ?_)
        have hfailed : r.error = false ∧ r.pollIn = true ∧ scan.index = 0 ∧ ((-1 : Int) < 0 ∨ Unused w (-1)) :=
          ⟨by simpa using herror, hin, hzero, .inl (by decide)⟩
        rw [hstep, scanIn, if_pos hfailed]
        rfl
      · cases hread : readFromClient env p.fd (clientAt p.fd w).server with
        | returned keep server =>
            refine .inr (goesOn_of_workStep (a := .advance) rfl ?_)
            rw [hstep, scanIn, if_neg herror, if_pos hin, if_neg hzero]
            simp only [hread]
            rfl
        | threw e server => exact absurd hread readFromClient_not_threw
        | undefined =>
            rw [clientAt_eq (readable_client hplaced hpc hat hzero)] at hread
            exact .inl ⟨scan, p, hpc, hat.entry, hread⟩
    · refine .inr (goesOn_of_workStep (a := .advance) rfl ?_)
      rw [hstep, scanIn, if_neg herror, if_neg hin]
      rfl

theorem goesOn_scanOut {scan : Scan} {p : PollFd} {r : Revents} (hpc : w.pc = .scanOut scan)
    (hat : At w scan p r) :
    GoesOn env w := by
  have hstep : workStep env w .advance = scanOut env w scan p r := by
    simp only [workStep, hpc, hat.entry, hat.report]
    rfl
  refine goesOn_of_workStep (a := .advance) rfl ?_
  rw [hstep, scanOut]
  split
  · obtain ⟨keep, server, hwrite⟩ := writeFromClient_returns env p.fd (clientAt p.fd w).server
    simp only [hwrite]
    rfl
  · rfl

theorem goesOn_flags (h : Mirror w) (hpc : w.pc = .flags) : GoesOn env w := by
  refine goesOn_of_workStep (a := .advance) rfl ?_
  simp only [workStep, hpc, Option.isSome_map, updatePollFlags]
  apply setFlags_isSome
  rw [List.length_map, Std.ExtTreeMap.length_toList, List.length_tail, h.entries]
  exact Nat.le_refl _

theorem goesOn (hplaced : Placed w) (hflags : w.pc = .flags → Mirror w) (hreported : Reported w) :
    (w.pc = .returned ∨ w.pc = .threw) ∨ ReadsUndefined env w ∨ GoesOn env w := by
  cases hpc : w.pc with
  | returned => exact .inl (.inl rfl)
  | threw => exact .inl (.inr rfl)
  | scanIn scan =>
      refine .inr ?_
      by_cases hlt : scan.index < w.pfdNr
      · have hscanned := hplaced
        rw [Placed, hpc] at hscanned
        rw [Reported, hpc] at hreported
        obtain ⟨p, r, hat⟩ := at_of_lt hscanned.1 hreported hlt
        exact goesOn_scanIn hplaced hpc hlt hat
      · refine .inr (goesOn_of_workStep (a := .advance) rfl ?_)
        simp only [workStep, hpc, if_neg hlt, if_true]
        rfl
  | scanOut scan =>
      rw [Placed, hpc] at hplaced
      rw [Reported, hpc] at hreported
      obtain ⟨p, r, hat⟩ := at_of_lt hplaced.1 hreported.1 hreported.2
      exact .inr (.inr (goesOn_scanOut hpc hat))
  | flags => exact .inr (.inr (goesOn_flags (hflags hpc) hpc))
  | top =>
      refine .inr (.inr (goesOn_of_workStep (a := .advance) rfl ?_))
      simp only [workStep, hpc]
      split
      · rfl
      · split <;> rfl
  | opening =>
      refine .inr (.inr (goesOn_of_workStep (a := .opened .opened) rfl ?_))
      simp only [workStep, hpc]
      rfl
  | poll =>
      refine .inr (.inr (goesOn_of_workStep (a := .timeout) rfl ?_))
      simp only [workStep, hpc]
      rfl
  | _ =>
      refine .inr (.inr (goesOn_of_workStep (a := .advance) rfl ?_))
      simp only [workStep, hpc]
      rfl

theorem stepsLeft_le (w : Work) : stepsLeft w.pfdNr w.pc ≤ 2 * w.pfdNr + 8 := by
  cases w.pc <;> simp only [stepsLeft] <;> omega

theorem pollsLeft_le (pc : Pc) : pollsLeft pc ≤ 1 := by
  cases pc with
  | closing | opening | connected | poll => exact Nat.le_refl 1
  | _ => exact Nat.zero_le 1

/-- Once it has been told to stop in its loop, work ends within the pass that it is in: with at most one more
poll and a number of steps bounded by the array, and it is not stuck before, unless in the mode command
that has no defined behaviour. A stop that comes before work has stored is_running is lost: where no other
comes, the worker never returns and stop never joins it. -/
theorem stopped_work_ends (env : Environment) (rigModel serverFd : Int) :
    (∀ as bs w w', Run (step env) Rebuilt (start rigModel serverFd) as w → w.pc ≠ .starting →
      w.isRunning = false → Run (step env) Rebuilt w bs w' →
      bs.countP OfWorker ≤ 2 * w.pfdNr + 8 ∧ bs.countP Polls ≤ 1 ∧
        ((w'.pc = .returned ∨ w'.pc = .threw) ∨ ReadsUndefined env w' ∨ GoesOn env w')) ∧
    ∀ as w, Run (step env) StopsEarly (start rigModel serverFd) as w → w.pc ≠ .returned := by
  constructor
  · intro as bs w w' h hstarted hstop h'
    have hstart : (Keyed w.server ∧ Placed w) ∧ Stopped w := ⟨(mirror_run h).1, hstarted, hstop⟩
    have hnext (v : Work) (a : Action) (v' : Work) (hinv : (Keyed v.server ∧ Placed v) ∧ Stopped v)
        (hstep : step env v a = some v') : ((Keyed v'.server ∧ Placed v') ∧ Stopped v') ∧ Ends v v' a := by
      have hs := steps_of_step hstep
      exact ⟨⟨placed_step hinv.1.1 hinv.1.2 hs, stopped_step hinv.2 hs⟩, ends_step hinv.1.2 hinv.2 hs⟩
    have hsteps := h'.countP_add_le _ (fun v => stepsLeft v.pfdNr v.pc) OfWorker hstart
      fun v a v' hinv _ hstep => ⟨(hnext v a v' hinv hstep).1, (hnext v a v' hinv hstep).2.steps⟩
    have hpolls := h'.countP_add_le _ (fun v => pollsLeft v.pc) Polls hstart
      fun v a v' hinv _ hstep => ⟨(hnext v a v' hinv hstep).1, (hnext v a v' hinv hstep).2.polls⟩
    have hrun := h.append h'
    have hreported := reported_run hrun
    refine ⟨?_, ?_, goesOn hreported.1 (mirror_run hrun).2 hreported.2⟩
    · have hbound := stepsLeft_le w
      omega
    · have hbound := pollsLeft_le w.pc
      omega
  · intro as w h
    have hunstopped : Unstopped w := by
      apply h.invariant Unstopped
      · exact ⟨by rintro ⟨⟩, fun hstarted => absurd rfl hstarted⟩
      · exact fun _ _ _ hinv hok hstep => unstopped_step hinv hok (steps_of_step hstep)
    exact hunstopped.stays

/-- The worker is told to stop while it waits in poll for its only client, and a stop that comes before
work has begun is overtaken. -/
theorem stopped_in_poll :
    (∃ w w' : Work, w.pc = .poll ∧ w.isRunning = false ∧ w'.pc = .returned ∧
      [Action.timeout, .advance].countP OfWorker ≤ 2 * w.pfdNr + 8) ∧
    ∃ w : Work, Run (step idleRig) StopsEarly (start modelIC7300 3) [.stop, .advance, .advance] w ∧
      w.isRunning = true ∧ w.pc ≠ .returned := by
  have hends := stopped_work_ends idleRig modelIC7300 3
  constructor
  · obtain ⟨w, hrun, hview⟩ := run_of_exec_map (step idleRig) Rebuilt (start modelIC7300 3)
      (connecting ++ [.stop])
      (fun w => (w.pc, w.isRunning, (exec (step idleRig) Rebuilt w [.timeout, .advance]).map Work.pc))
      (.poll, false, some .returned) (by decide +kernel)
    simp only [Prod.mk.injEq] at hview
    obtain ⟨w', hexec, hpc⟩ := Option.map_eq_some_iff.mp hview.2.2
    have hbound := hends.1 (connecting ++ [.stop]) [.timeout, .advance] w w' hrun (by simp [hview.1])
      hview.2.1 (run_of_exec hexec)
    exact ⟨w, w', hview.1, hview.2.1, hpc, hbound.1⟩
  · obtain ⟨w, hrun, hrunning⟩ := run_of_exec_map (step idleRig) StopsEarly (start modelIC7300 3)
      [.stop, .advance, .advance] Work.isRunning true (by decide +kernel)
    exact ⟨w, hrun, hrunning, hends.2 _ w hrun⟩

end Cwsd.RigctldShutdown

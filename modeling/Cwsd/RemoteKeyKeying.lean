import Cwsd.HighWater
import Cwsd.RemoteKeyStream
import Cwsd.Runs

namespace Cwsd.RemoteKeyKeying

open RemoteKeyProtocol RemoteKeyServer RemoteKeyStream HighWater Runs

/-- The calls of set_key since the last call of force_safe ended, newest first. -/
def callsSinceSafe : List Event → List Bool
  | [] => []
  | .forceSafe _ :: _ => []
  | .setKey _ down :: log => down :: callsSinceSafe log
  | .setPtt _ _ :: log | .pushed _ :: log | .popped _ _ :: log => callsSinceSafe log

def isForceSafe : Event → Bool
  | .forceSafe _ => true
  | _ => false

def changes : Bool → List Bool → List Bool
  | _, [] => []
  | level, b :: bs => if b = level then changes level bs else b :: changes b bs

theorem changes_snoc (level : Bool) (bs : List Bool) (b : Bool) :
    changes level (bs ++ [b]) = changes level bs ++ if b = bs.getLastD level then [] else [b] := by
  induction bs generalizing level with
  | nil => simp [changes]
  | cons c bs ih =>
      have hlast : (c :: bs).getLastD level = bs.getLastD c := by cases bs <;> rfl
      simp only [List.cons_append, changes, hlast]
      split
      · rename_i h
        rw [ih, h]
      · rw [ih]
        rfl

/-- What the keying depends on: the flag, the calls since the engine was forced
safe, the levels of the edges applied, how often it was forced safe, and whether
it is to be forced safe. -/
structure Keying where
  down : Bool
  calls : List Bool
  levels : List Bool
  safes : Nat
  reset : Bool

def keying (s : Server) : Keying :=
  { down := s.keyIsDown
    calls := callsSinceSafe s.log
    levels := (poppedEdges s.log).map ScheduledEdge.isDown
    safes := s.log.countP isForceSafe
    reset := s.resetRequested }

/-- The calls are the changes of the levels, and the flag is the last level. -/
structure InStep (k : Keying) : Prop where
  calls : k.calls.reverse = changes false k.levels
  down : k.down = k.levels.getLastD false

section

variable (cfg : Config) (now : UInt64) (s : Server)

theorem keying_reconnect : keying (reconnect now s) = keying s := by
  simp only [reconnect]
  split <;> rfl

theorem keying_checkReset :
    keying (checkReset now s) =
      if s.resetRequested then
        { keying s with down := false, calls := [], safes := (keying s).safes + 1, reset := false }
      else keying s := by
  simp only [checkReset]
  split
  · simp [keying, safeState, forceSafe, setPtt, setKey, emit, callsSinceSafe, poppedEdges, isForceSafe,
      List.countP_cons]
  · rfl

theorem keying_applyEdge (se : ScheduledEdge) :
    keying (applyEdge cfg now se s) =
      { keying s with
        down := se.isDown
        calls := (if se.isDown = s.keyIsDown then [] else [se.isDown]) ++ (keying s).calls
        levels := (keying s).levels ++ [se.isDown] } := by
  have hpop : keying (emit (.popped now se) s) =
      { keying s with levels := (keying s).levels ++ [se.isDown] } := by
    simp [keying, emit, callsSinceSafe, poppedEdges, isForceSafe]
  have hptt (down : Bool) (s : Server) : keying (pttForEdge now down s) = keying s := by
    simp only [pttForEdge]
    split <;> rfl
  have hkey (down : Bool) (s : Server) : keying (keyForEdge cfg now down s) =
      { keying s with
        down := down
        calls := (if down = s.keyIsDown then [] else [down]) ++ (keying s).calls } := by
    by_cases heq : down = s.keyIsDown
    · simp only [keyForEdge, heq, if_true, List.nil_append]
      rfl
    · simp only [keyForEdge, heq, if_false]
      split
      · simp [keying, setKey, emit, callsSinceSafe, poppedEdges, isForceSafe]
      · simp [keying, setKey, emit, callsSinceSafe, poppedEdges, isForceSafe]
  have hdown : (pttForEdge now se.isDown (emit (.popped now se) s)).keyIsDown = s.keyIsDown :=
    congrArg Keying.down ((hptt _ _).trans hpop)
  rw [applyEdge, hkey, hdown, hptt, hpop]

theorem keying_sequencePtt (next : Option ScheduledEdge) : keying (sequencePtt cfg now next s) = keying s := by
  have hlead : keying (pttLead cfg now next s) = keying s := by
    simp only [pttLead]
    split
    · rfl
    · split <;> rfl
  rw [sequencePtt, ← hlead]
  simp only [pttTail]
  split <;> rfl

end

variable {cfg : Config} {now : UInt64} {s : Server}

theorem inStep_applyEdge (se : ScheduledEdge) (h : InStep (keying s)) :
    InStep (keying (applyEdge cfg now se s)) := by
  have hdown : s.keyIsDown = (keying s).levels.getLastD false := h.down
  rw [keying_applyEdge]
  refine ⟨?_, by simp [List.getLastD_eq_getLast?]⟩
  rw [changes_snoc, ← h.calls, ← hdown, List.reverse_append]
  split <;> rfl

theorem inStep_applyDue (cfg : Config) (now : UInt64) (due : List ScheduledEdge) (h : InStep (keying s)) :
    InStep (keying (applyDue cfg now due s)) ∧ (keying (applyDue cfg now due s)).safes = (keying s).safes ∧
      (keying (applyDue cfg now due s)).reset = (keying s).reset := by
  induction due generalizing s with
  | nil => exact ⟨h, rfl, rfl⟩
  | cons se due ih =>
      simp only [applyDue]
      split
      · obtain ⟨hstep, hsafes, hreset⟩ := ih (inStep_applyEdge se h)
        exact ⟨hstep, by rw [hsafes, keying_applyEdge], by rw [hreset, keying_applyEdge]⟩
      · exact ⟨h, rfl, rfl⟩

def Undisturbed (cfg : Config) (now : UInt64) (s : Server) : Prop :=
  isSilent cfg (now - s.lastRxUs) s.lastRxUs = false ∧
    (s.keyIsDown = true → s.resetRequested = false → now - s.keyDownSinceUs ≤ us cfg.maxKeyDownMs)

instance : Decidable (Undisturbed cfg now s) := inferInstanceAs (Decidable (_ ∧ _))

theorem checks_undisturbed (h : Undisturbed cfg now s) :
    checks cfg now { s with clockUs := now } = checkReset now (reconnect now { s with clockUs := now }) := by
  obtain ⟨_, _, hreconnect⟩ := reconnect_eq now { s with clockUs := now }
  rw [checks_of_heard _ _ h.1, hreconnect, checkWatchdog, if_neg]
  rintro ⟨hdown, hlt⟩
  cases hreset : s.resetRequested with
  | true =>
      rw [checkReset, if_pos hreset] at hdown
      cases hdown
  | false =>
      rw [checkReset, if_neg (Bool.eq_false_iff.mp hreset)] at hdown hlt
      exact UInt64.not_lt.mpr (h.2 hdown hreset) hlt

theorem inStep_pass (h : InStep (keying s)) (hok : Undisturbed cfg now s)
    (hfirst : s.resetRequested = true → (keying s).levels = []) :
    InStep (keying (replayPass cfg now s)) ∧ (keying (replayPass cfg now s)).reset = false ∧
      (keying (replayPass cfg now s)).safes = (keying s).safes + if s.resetRequested then 1 else 0 := by
  have hreset : (reconnect now { s with clockUs := now }).resetRequested = s.resetRequested :=
    congrArg Keying.reset (keying_reconnect now { s with clockUs := now })
  have hkey : keying (checkReset now (reconnect now { s with clockUs := now })) =
      if s.resetRequested then
        { keying s with down := false, calls := [], safes := (keying s).safes + 1, reset := false }
      else keying s := by
    rw [keying_checkReset, hreset, keying_reconnect]
    rfl
  have hchecked : InStep (keying (checkReset now (reconnect now { s with clockUs := now }))) := by
    rw [hkey]
    split
    · rename_i hr
      simp only [hfirst hr]
      exact ⟨rfl, rfl⟩
    · exact h
  obtain ⟨hdrained, hsafes, hcleared⟩ := inStep_applyDue cfg now
    (checkReset now (reconnect now { s with clockUs := now })).queue hchecked
  rw [replayPass, checks_undisturbed hok]
  refine ⟨by rw [keying_sequencePtt]; exact hdrained, ?_, ?_⟩
  · rw [keying_sequencePtt, drain, hcleared, hkey]
    cases hr : s.resetRequested with
    | true => rfl
    | false => exact hr
  · rw [keying_sequencePtt, drain, hsafes, hkey]
    split <;> rfl

def toEdge (se : ScheduledEdge) : Edge := ⟨se.tsUs, se.state⟩

def tsNat (e : Edge) : Nat := e.tsUs.toNat

/-- What enqueuing edges does: those above the high-water mark enter, in order. -/
structure Enqueued (edges : List Edge) (s s' : Server) : Prop where
  pushed : ∃ new : List ScheduledEdge, new.map toEdge = above tsNat s.lastEnqueuedSrc.toNat edges ∧
    s'.queue = s.queue ++ new ∧ pushedEdges s'.log = pushedEdges s.log ++ new
  mark : s'.lastEnqueuedSrc.toNat = markAfter tsNat s.lastEnqueuedSrc.toNat edges
  popped : poppedEdges s'.log = poppedEdges s.log
  keying : keying s' = keying s
  session : s'.sessionId = s.sessionId ∧ s'.haveSession = s.haveSession

theorem enqueued_pushEdge (e : Edge) : Enqueued [e] s (pushEdge cfg now s e) := by
  by_cases hle : e.tsUs ≤ s.lastEnqueuedSrc
  · have hstale : tsNat e ≤ s.lastEnqueuedSrc.toNat := UInt64.le_iff_toNat_le.mp hle
    rw [pushEdge, if_pos hle]
    exact ⟨⟨[], by simp [above, hstale], by simp, by simp⟩, by simp [markAfter, hstale], rfl, rfl, rfl, rfl⟩
  · have hnew : ¬ tsNat e ≤ s.lastEnqueuedSrc.toNat := fun h => hle (UInt64.le_iff_toNat_le.mpr h)
    have hanchor : (anchor cfg now e s).queue = s.queue ∧ (anchor cfg now e s).log = s.log ∧
        (anchor cfg now e s).keyIsDown = s.keyIsDown ∧
        (anchor cfg now e s).resetRequested = s.resetRequested ∧
        (anchor cfg now e s).sessionId = s.sessionId ∧ (anchor cfg now e s).haveSession = s.haveSession := by
      simp only [anchor]
      split <;> exact ⟨rfl, rfl, rfl, rfl, rfl, rfl⟩
    rw [pushEdge, if_neg hle]
    generalize anchor cfg now e s = s₁ at hanchor
    obtain ⟨hq, hlog, hdown, hreset, hid, hses⟩ := hanchor
    refine ⟨⟨[⟨schedule now e { s₁ with lastEnqueuedSrc := e.tsUs }, e.state, s₁.sessionId, e.tsUs, now⟩],
      by simp [above, hnew, toEdge], by simp [emit, hq], by simp [emit, pushedEdges, hlog]⟩, ?_, ?_, ?_, hid, hses⟩
    · simp only [markAfter, hnew, if_false]
      rfl
    · simp [emit, poppedEdges, hlog]
    · simp [RemoteKeyKeying.keying, emit, callsSinceSafe, poppedEdges, isForceSafe, hlog, hdown, hreset]

theorem Enqueued.cons {e : Edge} {edges : List Edge} {s₁ s₂ : Server} (h : Enqueued [e] s s₁)
    (hrest : Enqueued edges s₁ s₂) : Enqueued (e :: edges) s s₂ := by
  obtain ⟨new, hnew, hq, hp⟩ := h.pushed
  obtain ⟨rest, hrest', hq', hp'⟩ := hrest.pushed
  have hmark := h.mark
  refine ⟨⟨new ++ rest, ?_, by rw [hq', hq, List.append_assoc], by rw [hp', hp, List.append_assoc]⟩, ?_,
    hrest.popped.trans h.popped, hrest.keying.trans h.keying, hrest.session.1.trans h.session.1,
    hrest.session.2.trans h.session.2⟩
  · rw [List.map_append, hnew, hrest', hmark]
    simp only [above, markAfter]
    split <;> rfl
  · rw [hrest.mark, hmark]
    simp only [markAfter]
    split <;> rfl

theorem enqueued_foldl (edges : List Edge) (s : Server) :
    Enqueued edges s (edges.foldl (pushEdge cfg now) s) := by
  induction edges generalizing s with
  | nil => exact ⟨⟨[], by simp [above], by simp, by simp⟩, rfl, rfl, rfl, rfl, rfl⟩
  | cons e edges ih => exact (enqueued_pushEdge e).cons (ih _)

end Cwsd.RemoteKeyKeying

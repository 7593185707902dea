import Cwsd.ServiceSteps

namespace Cwsd.BufferRoom

open KeyerState KeyerMachine CwDaemon CwdaemonServer WinkeyerData WinkeyerFeed KeyLine Framing KeyRelease Runs
    WinkeyerEffects MessageEffects
open ServiceSteps
open WinkeyerFraming (frameArity frameOp)

def putByte : Effect → Option UInt8
  | .put b => some b
  | .speed _ | .clear => none

def putBytes (es : List Effect) : List UInt8 := es.filterMap putByte

theorem putBytes_map_put (bytes : List UInt8) : putBytes (bytes.map .put) = bytes := by
  rw [putBytes, List.filterMap_map]
  exact List.filterMap_some

section

variable {F : Type} [SinglePrecision F]

/-- The translation of a text fits into the free space of the buffer. -/
def Fits (char : CharType) (p : Pace F) (message : List UInt8) : Prop :=
  message.headD 0 ≠ esc → p.buffer.size + (textMessage char message (setSpeed p)).length ≤ p.buffer.capacity

instance (char : CharType) (p : Pace F) (message : List UInt8) : Decidable (Fits char p message) :=
  inferInstanceAs (Decidable (_ → _))

structure Roomy (p : Pace F) (es : List Effect) : Prop where
  room : p.buffer.contents.length + (putBytes es).length ≤ p.buffer.maxSize
  lossless : flow p.log = some p.buffer.contents

theorem not_full_of_room {b : CircularBuffer UInt8} (h : b.contents.length < b.maxSize) : b.full = false := by
  rw [Bool.eq_false_iff]
  intro hfull
  rw [b.contents_length, CircularBuffer.size, if_pos hfull] at h
  exact Nat.lt_irrefl _ h

theorem roomy_fetch {p p' : Pace F} {es : List Effect} (h : Fetch p p') (hp : Roomy p es) : Roomy p' es := by
  have hroom := hp.room
  have hlossless := hp.lossless
  cases h with
  | same heq => exact heq ▸ hp
  | take c rest hbuf hlen hne buffer hrest hmax heq =>
      subst heq
      rw [hbuf] at hroom hlossless
      constructor
      · dsimp only
        rw [hrest, hmax, List.length_drop]
        rw [List.length_cons] at hroom
        omega
      · dsimp only
        rw [hrest]
        refine flow_take (hlossless.trans ?_)
        rw [List.cons_append, List.take_append_drop]
  | reset rest hbuf buffer hempty hmax heq =>
      subst heq
      rw [hbuf] at hroom hlossless
      constructor
      · dsimp only
        rw [hempty, hmax, List.length_nil]
        rw [List.length_cons] at hroom
        omega
      · have htake : flow (.take 0x0A [] :: p.log) = some rest := flow_take hlossless
        dsimp only
        rw [flow, htake, hempty]
        rfl

omit [SinglePrecision F] in
theorem Roomy.not_full {p : Pace F} {b : UInt8} {es : List Effect} (h : Roomy p (.put b :: es)) :
    p.buffer.full = false := by
  have hroom := h.room
  have hputs : putBytes (.put b :: es) = b :: putBytes es := rfl
  rw [hputs, List.length_cons] at hroom
  exact not_full_of_room (by omega)

theorem roomy_perform {p : Pace F} {e : Effect} {es : List Effect} (hp : Roomy p (e :: es)) :
    Roomy (p.perform e) es := by
  have hroom := hp.room
  have hlossless := hp.lossless
  cases e with
  | put b =>
      have hputs : putBytes (.put b :: es) = b :: putBytes es := rfl
      have hcontents : (p.perform (.put b)).buffer.contents = p.buffer.contents ++ [b] :=
        p.buffer.contents_put b hp.not_full
      have hmax : (p.perform (.put b)).buffer.maxSize = p.buffer.maxSize := rfl
      rw [hputs, List.length_cons] at hroom
      constructor
      · rw [hcontents, hmax, List.length_append, List.length_singleton]
        omega
      · have hlog : (p.perform (.put b)).log = .put b :: p.log := rfl
        rw [hlog, flow, hlossless, hcontents]
        rfl
  | speed wpm => exact ⟨hroom, hlossless⟩
  | clear =>
      have hputs : putBytes (.clear :: es) = putBytes es := rfl
      have hcontents : (p.perform .clear).buffer.contents = [] := CircularBuffer.contents_reset _
      have hmax : (p.perform .clear).buffer.maxSize = p.buffer.maxSize := rfl
      rw [hputs] at hroom
      constructor
      · rw [hcontents, hmax, List.length_nil]
        omega
      · have hlog : (p.perform .clear).log = .clear :: p.log := rfl
        rw [hlog, flow, hlossless, hcontents]
        rfl

theorem roomy_receive {char : CharType} {p : Pace F} {message : List UInt8} {es : List Effect}
    (hok : Fits char p message) (ht : Translation char message (setSpeed p) es) (hp : Roomy p []) :
    Roomy p es := by
  refine ⟨?_, hp.lossless⟩
  cases ht with
  | text htext =>
      rw [putBytes_map_put, p.buffer.contents_length]
      exact hok htext
  | speed hesc v hv => exact hp.room
  | clear hesc hc => exact hp.room
  | silent hesc => exact hp.room

def produce (char : CharType) (p : Pace F) (message produced : List UInt8) : List UInt8 :=
  if message.headD 0 ≠ esc then produced ++ textMessage char message (setSpeed p) else produced

/-- Every byte produced is in the log as a put or still to be put, and the buffer has room for the
latter. -/
structure Kept (produced : List UInt8) (p : Pace F) (es : List Effect) : Prop where
  roomy : Roomy p es
  produced : produced = puts p.log ++ putBytes es

theorem kept_fetch {produced : List UInt8} {p p' : Pace F} {es : List Effect} (h : Fetch p p')
    (hp : Kept produced p es) :
    Kept produced p' es := by
  refine ⟨roomy_fetch h hp.roomy, ?_⟩
  cases h with
  | same heq | take _ _ _ _ _ _ _ _ heq | reset _ _ _ _ _ heq =>
      rw [heq]
      exact hp.produced

theorem kept_perform {produced : List UInt8} {p : Pace F} {e : Effect} {es : List Effect}
    (hp : Kept produced p (e :: es)) :
    Kept produced (p.perform e) es := by
  refine ⟨roomy_perform hp.roomy, ?_⟩
  cases e with
  | put b =>
      have hputs : puts (p.perform (.put b)).log = puts p.log ++ [b] := by
        simp [Pace.perform, puts]
      rw [hputs, List.append_assoc]
      exact hp.produced
  | speed wpm | clear => exact hp.produced

theorem kept_receive {char : CharType} {produced : List UInt8} {p : Pace F} {message : List UInt8}
    {es : List Effect} (hok : Fits char p message) (ht : Translation char message (setSpeed p) es)
    (hp : Kept produced p []) :
    Kept (produce char p message produced) p es := by
  refine ⟨roomy_receive hok ht hp.roomy, ?_⟩
  have hnone : produced = puts p.log := hp.produced.trans (List.append_nil _)
  cases ht with
  | text htext => rw [produce, if_pos htext, putBytes_map_put, hnone]
  | speed hesc _ _ | clear hesc _ | silent hesc =>
      rw [produce, if_neg (not_not.mpr hesc)]
      exact hp.produced

omit [SinglePrecision F] in
theorem effect_of_puts {k : Keyer F} {c : UInt8} (h : Puts k c) : effect c (parser k) = [.put c] := by
  refine if_neg ?_
  rintro (hw | hs)
  · exact absurd h.1 ((pos_iff_ne_zero _).mp hw)
  · rcases h.2 with hr | hc
    · exact hr hs.1
    · exact (frameHead_iff c).mp hc hs.2

/-- Nothing is lost in a run in which the translation of every text fits into the free space it
finds. No byte is put into a full buffer, the bytes that texts were translated into have all been
put or are about to be, and a byte that was put leaves the buffer only as the oldest one, taken by
the winkeyer state, or by a clear. -/
theorem nothing_lost (char : CharType) (a : Readings) (initialWpm : UInt8) (acts : List Action)
    (s : Service F) (produced : List UInt8)
    (h : Run (observed (step char) (note (produce char)))
      (fun w act => Allowed (fun _ _ => True) (Fits char) w.1 act) (start a initialWpm, []) acts (s, produced)) :
    (∀ c bytes, toFeed s.client = c :: bytes → Puts s.keyer c → s.keyer.winkeyerBuffer.full = false) ∧
      produced = puts (s.keyer.trace.filterMap frameOp) ++ putBytes (todo s) ∧
      flow (s.keyer.trace.filterMap frameOp) = some s.keyer.winkeyerBuffer.contents := by
  have hstart : Kept [] (pace (start a initialWpm : Service F).keyer) [] := by
    rw [pace_start]
    refine ⟨⟨?_, ?_⟩, rfl⟩
    · rw [CircularBuffer.contents_ofSize]
      exact Nat.zero_le _
    · rw [CircularBuffer.contents_ofSize]
      rfl
  have hserving := serving_observed Kept (produce char) (fun p message g hesc => if_neg (not_not.mpr hesc))
    (fun g p p' es hf hp => kept_fetch hf hp) (fun g p e es _ hp => kept_perform hp)
    (fun g p message es hok ht hp => kept_receive hok ht hp) hstart h
  refine ⟨?_, hserving.inv.produced, hserving.inv.roomy.lossless⟩
  intro c bytes hfeed hputs
  have htodo : todo s = .put c :: effects bytes ((parser s.keyer).feed c) := by
    rw [todo, hfeed, effects, effect_of_puts hputs]
    rfl
  have hroomy := hserving.inv.roomy
  rw [htodo] at hroomy
  exact hroomy.not_full

end

def shortText : List Action :=
  [quiet 0, datagram [0x2B, 0x45, 0x2D, 0x54] 0, quiet 0, quiet 0, quiet 0, .keyer fun _ => .at 1,
    .keyer fun _ => .at 1]

theorem nothing_lost_of_shortText :
    ∃ s produced, Run (observed (step .signed) (note (produce .signed)))
        (fun w act => Allowed (fun _ _ => True) (Fits .signed) w.1 act) ((start (.at 0) 24 : Service ℚ), [])
        shortText (s, produced) ∧ produced = [0x1C, 26, 0x45, 0x1C, 24, 0x54] ∧
      produced = puts (s.keyer.trace.filterMap frameOp) ++ putBytes (todo s) := by
  obtain ⟨⟨s, produced⟩, hrun, hview⟩ := run_of_exec_map (observed (step .signed) (note (produce .signed)))
    (fun w act => Allowed (fun _ _ => True) (Fits .signed) w.1 act) ((start (.at 0) 24 : Service ℚ), [])
    shortText (fun w => w.2) [0x1C, 26, 0x45, 0x1C, 24, 0x54] (by decide +kernel)
  exact ⟨s, produced, hrun, hview, (nothing_lost .signed (.at 0) 24 shortText s produced hrun).2.1⟩

/-- One datagram of 161 letters and no tick: the last letter is put into a full buffer. -/
theorem long_text_overflows :
    ∃ s, Run (step .signed) (fun _ _ => True) (start (.at 0) 24 : Service ℚ)
        ([quiet 0, datagram (List.replicate 161 0x45) 0] ++ List.replicate 160 (quiet 0)) s ∧
      toFeed s.client = [0x45] ∧ Puts s.keyer 0x45 ∧ s.keyer.winkeyerBuffer.full = true := by
  obtain ⟨s, hrun, hview⟩ := run_of_exec_map (step .signed) (fun _ _ => True) (start (.at 0) 24 : Service ℚ)
    ([quiet 0, datagram (List.replicate 161 0x45) 0] ++ List.replicate 160 (quiet 0))
    (fun s => (toFeed s.client, decide (Puts s.keyer 0x45), s.keyer.winkeyerBuffer.full)) ([0x45], true, true)
    (by decide +kernel)
  simp only [Prod.mk.injEq, decide_eq_true_eq] at hview
  exact ⟨s, hrun, hview⟩

end Cwsd.BufferRoom

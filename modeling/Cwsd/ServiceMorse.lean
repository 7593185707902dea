import Cwsd.BufferRoom
import Cwsd.MorseStream
import Cwsd.TextFrames

namespace Cwsd.ServiceMorse

open KeyerState KeyerMachine KeyerTrack CwDaemon CwdaemonServer WinkeyerData WinkeyerFeed KeyLine Framing
    KeyRelease Runs WinkeyerEffects MessageEffects ServiceSteps BufferRoom NonzeroSpeeds TextScan TextFrames
open WinkeyerFraming (frameArity frameOp filterMap_marks Good good_init)
open MorseStream (Entry morse entries entries_marks takenHeads rest Streaming Plain streaming_step)

/-- The Morse of one byte of a text, from the text before it. -/
def byteMorse (before : List UInt8) (c : UInt8) : List Entry :=
  if IsWritten c then
    morse (toUpper c) ++ if gapAfter before then List.replicate 4 (.halfDotGap, .none) else []
  else []

/-- The Morse of a text: signs are not sent, and a gap asked for follows the next character. -/
def textMorse (text : List UInt8) : List Entry :=
  (List.range text.length).flatMap fun i => byteMorse (text.take i) (text.getD i 0)

def frameMorse (f : List UInt8) : List Entry := morse (f.headD 0)

theorem morse_speed : morse 0x1C = [] := by decide

theorem morse_bar : morse '|'.toUInt8 = [(.halfDotGap, .none)] := by decide

theorem frameMorse_byteFrames (speed : UInt8) (before : List UInt8) (c : UInt8) (next : Option UInt8) :
    (byteFrames speed before c next).flatMap frameMorse = byteMorse before c := by
  rw [byteFrames, byteMorse]
  by_cases hsign : IsSign c
  · have hnot : ¬ IsWritten c := fun h => h.2.1 hsign
    rw [if_pos hsign, if_neg hnot]
    split
    · rfl
    · simp [frameMorse, morse_speed]
  · rw [if_neg hsign]
    by_cases hw : IsWritten c
    · rw [if_pos hw, if_pos hw, List.flatMap_cons]
      refine congrArg (morse (toUpper c) ++ ·) ?_
      split
      · simp [frameMorse, morse_bar, List.replicate]
      · rfl
    · rw [if_neg hw, if_neg hw]
      rfl

theorem frameMorse_text (speed : UInt8) (text : List UInt8) :
    (textFrames speed text ++ restoreFrames speed text).flatMap frameMorse = textMorse text := by
  have hrestore : (restoreFrames speed text).flatMap frameMorse = [] := by
    rw [restoreFrames]
    split
    · simp [frameMorse, morse_speed]
    · rfl
  rw [List.flatMap_append, hrestore, List.append_nil, textFrames, List.flatMap_assoc, textMorse]
  exact List.flatMap_congr fun i _ => frameMorse_byteFrames speed (text.take i) (text.getD i 0) text[i + 1]?

/-- The bytes are complete frames, and these are heard as the Morse of the texts. -/
def Spells (char : CharType) (texts : List (List UInt8)) (bytes : List UInt8) : Prop :=
  ∃ fs : List (Frame frameArity), bytes = fs.flatMap Frame.symbols ∧
    fs.flatMap (fun f => morse f.head) = texts.flatMap fun text => textMorse (readText char text)

theorem spells_text (char : CharType) (message : List UInt8) (speed : UInt8) :
    Spells char [message] (textMessage char message speed) := by
  have hframes := frames_textMessage char message speed
  obtain ⟨fs, -, hfs⟩ := Option.map_eq_some_iff.mp hframes
  have hmorse : fs.flatMap (fun f => morse f.head) = (fs.map Frame.symbols).flatMap frameMorse := by
    rw [List.flatMap_map]
    rfl
  refine ⟨fs, ?_, ?_⟩
  · rw [textMessage_eq, ← hfs, List.flatMap_def]
  · rw [hmorse, hfs, frameMorse_text, List.flatMap_singleton]

theorem Spells.append {char : CharType} {texts texts' : List (List UInt8)} {bytes bytes' : List UInt8}
    (h : Spells char texts bytes) (h' : Spells char texts' bytes') :
    Spells char (texts ++ texts') (bytes ++ bytes') := by
  obtain ⟨fs, rfl, hfs⟩ := h
  obtain ⟨fs', rfl, hfs'⟩ := h'
  exact ⟨fs ++ fs', by rw [List.flatMap_append], by rw [List.flatMap_append, List.flatMap_append, hfs, hfs']⟩

section

variable {F : Type} [SinglePrecision F]

def texts (_ : Pace F) (message : List UInt8) (received : List (List UInt8)) : List (List UInt8) :=
  if message.headD 0 ≠ esc then received ++ [message] else received

def Spelled (char : CharType) (received : List (List UInt8)) (p : Pace F) (es : List Effect) : Prop :=
  ∃ produced, Kept produced p es ∧ Spells char received produced

theorem spelled_receive {char : CharType} {received : List (List UInt8)} {p : Pace F} {message : List UInt8}
    {es : List Effect} (hok : Fits char p message) (ht : Translation char message (setSpeed p) es)
    (hp : Spelled char received p []) : Spelled char (texts p message received) p es := by
  obtain ⟨produced, hkept, hspells⟩ := hp
  refine ⟨produce char p message produced, kept_receive hok ht hkept, ?_⟩
  rw [texts, produce]
  split
  · exact hspells.append (spells_text char message (setSpeed p))
  · exact hspells

/-- No abort takes effect. -/
def Unaborted (_ : Pace F) (e : Effect) : Prop := e ≠ .clear

instance (p : Pace F) (e : Effect) : Decidable (Unaborted p e) := inferInstanceAs (Decidable (e ≠ .clear))

def Heard (k : Keyer F) : Prop := (∃ q, Good (track k) q) ∧ Streaming (track k)

theorem heard_init (a : Answers) : Heard (init a (Keyer.zero : Keyer F)) := by
  refine ⟨⟨_, good_init a⟩, ⟨⟨[], rfl, rfl⟩, ?_⟩⟩
  have hmarks : (track (init a (Keyer.zero : Keyer F))).marks = [.entered .idle .none] := rfl
  simp [hmarks]

theorem heard_start (a : Readings) (initialWpm : UInt8) : Heard (start a initialWpm : Service F).keyer := by
  have hinit := heard_init (F := F) (keyInterface a)
  have hfirst : Heard (winkeyerData 0x02 (init (keyInterface a) (Keyer.zero : Keyer F))) := by
    have hplain : Plain (init (keyInterface a) (Keyer.zero : Keyer F)) (.data 0x02) := by
      refine ⟨fun _ => rfl, ?_⟩
      rintro c hc ⟨-, -, rfl⟩
      cases hc
    exact streaming_step hinit hplain rfl
  have hplain : Plain (winkeyerData 0x02 (init (keyInterface a) (Keyer.zero : Keyer F)))
    (.data initialWpm) := by
    refine ⟨fun _ => rfl, ?_⟩
    rintro c - ⟨hwaiting, -, -⟩
    exact absurd hwaiting (show (1 : UInt8) ≠ 0 by decide)
  exact streaming_step hfirst hplain rfl

omit [SinglePrecision F] in
theorem not_clear_of_effect {c : UInt8} {k : Keyer F} (h : ∀ e ∈ effect c (parser k), e ≠ .clear) :
    ¬ (k.winkeyerWaitingForArguments = 0 ∧ k.winkeyerRemainingBufferedArguments = 0 ∧ c = 0x0A) := by
  rintro ⟨hwaiting, hremaining, rfl⟩
  have hw : ¬ 0 < (parser k).waiting := by
    rw [WinkeyerData.pos_iff_ne_zero]
    exact not_not.mpr hwaiting
  have hs : (parser k).Starts 0x0A := ⟨hremaining, by decide, by decide⟩
  have hzero : (UInt8.ofNat (parameterCount 0x0A)) = 0 := by decide
  have heffect : effect 0x0A (parser k) = [.clear] := by
    simp [effect, hs, FrameParser.feed, hw, hzero, execution]
  exact h .clear (by simp [heffect]) rfl

theorem heard_step {char : CharType} {act : Action} {s s' : Service F} {received : List (List UInt8)}
    (hserving : Serving (Spelled char received) s) (h : Heard s.keyer)
    (hok : Allowed Unaborted (Fits char) s act) (hs : step char s act = some s') : Heard s'.keyer := by
  cases advance_of_step hs with
  | quiet _ hkeyer _ | carrier _ hkeyer _ _ | message _ _ _ _ _ hkeyer _ =>
      rw [hkeyer]
      exact h
  | byte _ input hact c bytes hfeed hkeyer _ =>
      subst hact
      have hnext : nextEffects s = effect c (parser s.keyer) := by rw [nextEffects, hfeed]
      have hallowed := hok.1
      rw [hnext] at hallowed
      have hroom (hputs : Puts s.keyer c) : s.keyer.winkeyerBuffer.full = false := by
        obtain ⟨produced, hkept, -⟩ := hserving.inv
        have htodo : todo s = .put c :: effects bytes ((parser s.keyer).feed c) := by
          rw [todo, hfeed, effects, effect_of_puts hputs]
          rfl
        have hroomy := hkept.roomy
        rw [htodo] at hroomy
        exact hroomy.not_full
      have hplain : Plain s.keyer (.data c) := by
        refine ⟨hroom, ?_⟩
        rintro d hd
        cases hd
        exact not_clear_of_effect hallowed
      exact streaming_step h hplain (congrArg some hkeyer.symm)
  | tick _ hardware hkeyer _ =>
      have hplain : Plain s.keyer (.tick fun i => keyInterface (hardware i)) := by
        refine ⟨fun i => keyInterface_released (hardware i), ?_⟩
        rintro c hc
        cases hc
      exact streaming_step h hplain (congrArg some hkeyer.symm)

/-- Nothing is left to be sent: no byte, no frame and no element. -/
structure Drained (s : Service F) : Prop where
  fed : toFeed s.client = []
  buffer : s.keyer.winkeyerBuffer.contents = []
  state : s.keyer.currentState ≠ some .sendElement
  bit : s.keyer.playingBit = 0
  played : s.keyer.winkeyerInterCharSpacePlayed = true

omit [SinglePrecision F] in
theorem Drained.rest {s : Service F} (h : Drained s) : rest (track s.keyer) = [] := by
  have hstate : (track s.keyer).state ≠ some .sendElement := h.state
  have hbit : (track s.keyer).bit = 0 := h.bit
  have hplayed : (track s.keyer).played = true := h.played
  simp [MorseStream.rest, hstate, hbit, hplayed]

theorem kept_start (a : Readings) (initialWpm : UInt8) :
    Kept [] (pace (start a initialWpm : Service F).keyer) [] := by
  rw [pace_start]
  refine ⟨⟨?_, ?_⟩, rfl⟩
  · rw [CircularBuffer.contents_ofSize]
    exact Nat.zero_le _
  · rw [CircularBuffer.contents_ofSize]
    rfl

theorem served_run {char : CharType} {a : Readings} {initialWpm : UInt8} {acts : List Action} {s : Service F}
    {received : List (List UInt8)}
    (h : Run (observed (step char) (note texts)) (fun w act => Allowed Unaborted (Fits char) w.1 act)
      (start a initialWpm, []) acts (s, received)) :
    Serving (Spelled char received) s ∧ Heard s.keyer := by
  have hstart : Serving (Spelled char []) (start a initialWpm : Service F) :=
    ⟨ready_start a initialWpm, by rw [pace_start], [], kept_start a initialWpm, [], rfl, rfl⟩
  refine h.invariant (fun w => Serving (Spelled char w.2) w.1 ∧ Heard w.1.keyer)
    ⟨hstart, heard_start a initialWpm⟩ ?_
  rintro w act w' ⟨hserving, hheard⟩ hok hstep
  obtain ⟨hs, hreceived⟩ := observed_eq_some.mp hstep
  refine ⟨?_, heard_step hserving hheard hok hs⟩
  rw [hreceived]
  exact serving_step (Spelled char) texts (fun p message g hesc => if_neg (not_not.mpr hesc))
    (fun g p p' es hf hp => hp.imp fun _ hp => ⟨kept_fetch hf hp.1, hp.2⟩)
    (fun g p e es _ hp => hp.imp fun _ hp => ⟨kept_perform hp.1, hp.2⟩)
    (fun g p message es hok ht hp => spelled_receive hok ht hp) hserving hok hs

omit [SinglePrecision F] in
theorem frames_split {k : Keyer F} {q : Queue frameArity} (hq : Good (track k) q)
    (hclear : .cleared ∉ (track k).marks) {more : List UInt8} {fs : List (Frame frameArity)}
    (hfs : puts (k.trace.filterMap frameOp) ++ more = fs.flatMap Frame.symbols) :
    ∃ pre, pre.map Frame.head = takenHeads (track k).marks ∧ fs = pre ++ (more.foldl Queue.put q).pending := by
  have hmarks : (track k).marks.filterMap frameOp = k.trace.filterMap frameOp := filterMap_marks k.trace
  have hops : Op.clear ∉ k.trace.filterMap frameOp := by
    rw [← hmarks]
    intro hmem
    obtain ⟨e, he, hop⟩ := List.mem_filterMap.mp hmem
    cases e with
    | cleared => exact hclear he
    | _ => cases hop
  have hlog := hq.framed.log
  rw [WinkeyerFraming.frameQueue, hmarks] at hlog
  obtain ⟨pre, hpre, hof⟩ := Queue.ofSymbols_puts hops hlog
  refine ⟨pre, by rw [hpre, takenHeads, hmarks], ?_⟩
  have hwhole := Queue.ofSymbols_frames fs
  rw [← hfs, Queue.ofSymbols_append, hof, Queue.foldl_put_prepend] at hwhole
  exact (congrArg Queue.pending hwhole).symm

/-- What a client hears of the service is what was sent to it: in every run without an abort in
which every text fits into the free space it finds, the elements and gaps that the keyer has sent
are a beginning of the Morse of the texts received, in their order, whatever speeds they ask for,
and they are all of it when nothing is left. -/
theorem keys_received_texts (char : CharType) (a : Readings) (initialWpm : UInt8) (acts : List Action)
    (s : Service F) (received : List (List UInt8))
    (h : Run (observed (step char) (note texts)) (fun w act => Allowed Unaborted (Fits char) w.1 act)
      (start a initialWpm, []) acts (s, received)) :
    ∃ seq later, entries s.keyer.trace = (.idle, .none) :: seq ∧
      seq ++ later = received.flatMap (fun text => textMorse (readText char text)) ∧
      (Drained s → later = []) := by
  obtain ⟨hserving, ⟨q, hq⟩, ⟨seq, hseq, hrest⟩, hclear⟩ := served_run h
  obtain ⟨produced, hkept, fs, hfs, htexts⟩ := hserving.inv
  rw [hkept.produced] at hfs
  obtain ⟨pre, hpre, rfl⟩ := frames_split hq hclear hfs
  refine ⟨seq, rest (track s.keyer) ++ ((putBytes (todo s)).foldl Queue.put q).pending.flatMap fun f =>
    morse f.head,
    (entries_marks s.keyer.trace).symm.trans hseq, ?_, ?_⟩
  · rw [← List.append_assoc, hrest, ← hpre, List.flatMap_map, ← List.flatMap_append]
    exact htexts
  · intro hdrained
    have htodo : todo s = [] := by rw [todo, hdrained.fed, effects]
    have hbuffer : q.symbols = [] := hq.framed.buffer.symm.trans hdrained.buffer
    have hpending : q.pending = [] := by
      cases hp : q.pending with
      | nil => rfl
      | cons f fs => simp [Queue.symbols, hp, Frame.symbols] at hbuffer
    rw [hdrained.rest, htodo]
    simp [putBytes, hpending]

end

def gapAndLetter : List Action :=
  [quiet 0, datagram ['~'.toUInt8, 'e'.toUInt8] 0, quiet 0, quiet 0, quiet 0, quiet 0, quiet 0] ++
    (List.range 8).flatMap fun i => [.keyer fun _ => .at 1, .keyer fun _ => .at (UInt32.ofNat (1000 * (i + 1)))]

theorem gapAndLetter_keyed :
    ∃ s, Run (observed (step .signed) (note texts)) (fun w act => Allowed Unaborted (Fits .signed) w.1 act)
        ((start (.at 0) 24 : Service ℚ), []) gapAndLetter (s, [[0x7E, 0x65, 0]]) ∧ Drained s ∧
      entries s.keyer.trace = [(.idle, .none), (.sendElement, .dit), (.interElementSpace, .none),
        (.autospace, .none), (.halfDotGap, .none), (.halfDotGap, .none), (.halfDotGap, .none),
        (.halfDotGap, .none)] := by
  obtain ⟨⟨s, received⟩, hrun, hview⟩ := run_of_exec_map (observed (step .signed) (note texts))
    (fun w act => Allowed Unaborted (Fits .signed) w.1 act) ((start (.at 0) 24 : Service ℚ), []) gapAndLetter
    (fun w => (w.2, toFeed w.1.client, w.1.keyer.winkeyerBuffer.contents,
      decide (w.1.keyer.currentState ≠ some .sendElement ∧ w.1.keyer.playingBit = 0 ∧
        w.1.keyer.winkeyerInterCharSpacePlayed = true)))
    ([[0x7E, 0x65, 0]], [], [], true) (by decide +kernel)
  simp only [Prod.mk.injEq, decide_eq_true_eq] at hview
  obtain ⟨rfl, hfed, hbuffer, hstate, hbit, hplayed⟩ := hview
  have hdrained : Drained s := ⟨hfed, hbuffer, hstate, hbit, hplayed⟩
  obtain ⟨seq, later, hseq, hmorse, hlater⟩ := keys_received_texts .signed (.at 0) 24 gapAndLetter s _ hrun
  rw [hlater hdrained, List.append_nil] at hmorse
  refine ⟨s, hrun, hdrained, ?_⟩
  rw [hseq, hmorse]
  decide

end Cwsd.ServiceMorse

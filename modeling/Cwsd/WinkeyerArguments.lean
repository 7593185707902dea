import Cwsd.KeyLine
import Cwsd.Replay
import Cwsd.WinkeyerFraming

namespace Cwsd.WinkeyerArguments

open KeyerState KeyerMachine KeyerPass WinkeyerData WinkeyerFeed WinkeyerFraming KeyLine Framing Replay

/-- What a byte comes to: an argument or an immediate command that waits for more of them, the last byte
of an immediate command, which is executed, or a byte for the buffer. -/
inductive Outcome
  | collected
  | executed (command : UInt8) (arguments : List UInt8)
  | buffered (c : UInt8)
  deriving DecidableEq

def outcome (c : UInt8) (p : FrameParser) : Outcome :=
  if 0 < p.waiting ∨ p.Starts c then
    if (p.feed c).waiting = 0 then
      .executed (p.feed c).pending ((p.feed c).arguments.take (parameterCount (p.feed c).pending))
    else .collected
  else .buffered c

section

variable {p : FrameParser}

theorem feed_argument (c : UInt8) (hw : 0 < p.waiting) :
    p.feed c =
      { p with arguments := p.arguments.set p.index.toNat c, index := p.index + 1, waiting := p.waiting - 1 } :=
  if_pos hw

theorem feed_start {c : UInt8} (hw : ¬ 0 < p.waiting) (hs : p.Starts c) :
    p.feed c = { p with pending := c, waiting := UInt8.ofNat (parameterCount c), index := 0 } := by
  rw [FrameParser.feed, if_neg hw, if_pos hs]

theorem feed_buffered {c : UInt8} (hw : ¬ 0 < p.waiting) (hs : ¬ p.Starts c) :
    p.feed c = { p with
      remaining :=
        if 0 < p.remaining then p.remaining - 1
        else if isWinkeyerCommand c && isWinkeyerBufferedCommand c then UInt8.ofNat (parameterCount c)
        else 0 } := by
  rw [FrameParser.feed, if_neg hw, if_neg hs]

theorem outcome_argument (c : UInt8) (hw : 0 < p.waiting) :
    outcome c p =
      if p.waiting - 1 = 0 then
        .executed p.pending ((p.arguments.set p.index.toNat c).take (parameterCount p.pending))
      else .collected := by
  rw [outcome, if_pos (Or.inl hw), feed_argument c hw]

theorem outcome_start {c : UInt8} (hw : ¬ 0 < p.waiting) (hs : p.Starts c) :
    outcome c p =
      if UInt8.ofNat (parameterCount c) = 0 then .executed c (p.arguments.take (parameterCount c))
      else .collected := by
  rw [outcome, if_pos (Or.inr hs), feed_start hw hs]

theorem outcome_buffered {c : UInt8} (hw : ¬ 0 < p.waiting) (hs : ¬ p.Starts c) : outcome c p = .buffered c := by
  rw [outcome, if_neg (not_or.mpr ⟨hw, hs⟩)]

end

section

variable {F : Type}

def withParser (p : FrameParser) (k : Keyer F) : Keyer F :=
  { k with
    winkeyerWaitingForArguments := p.waiting
    winkeyerPendingCommand := p.pending
    winkeyerArgumentIndex := p.index
    winkeyerArguments := p.arguments
    winkeyerRemainingBufferedArguments := p.remaining }

variable [SinglePrecision F]

/-- An immediate command with nothing but its own arguments. -/
def execute (command : UInt8) (arguments : List UInt8) (k : Keyer F) : Keyer F :=
  let argument := arguments.headD 0
  if command = 0x02 then
    emit .parametersChanged
      { k with
        winkeyerSpeedWpm := (argument.toNat : F)
        profile := k.profile.setSpeed (argument.toNat : F) }
  else if command = 0x03 then { k with profile := k.profile.setWeighting argument }
  else if command = 0x0A then emit .cleared { k with winkeyerBuffer := k.winkeyerBuffer.reset }
  else if command = 0x0B then
    if argument = 1 then emit (.keyDown .immediate) k else emit (.keyUp .immediate) k
  else k

def obey (o : Outcome) (k : Keyer F) : Keyer F :=
  match o with
  | .collected => k
  | .executed command arguments => execute command arguments k
  | .buffered c => emit (.put c) { k with winkeyerBuffer := k.winkeyerBuffer.put c }

/-- The byte moves the parser on, and nothing is done but what it comes to. -/
def noted (c : UInt8) (k : Keyer F) : Outcome × Keyer F :=
  (outcome c (parser k), obey (outcome c (parser k)) (withParser ((parser k).feed c) k))

theorem headD_take {arguments : List UInt8} {n : Nat} (hn : 0 < n) :
    (arguments.take n).headD 0 = arguments.headD 0 := by
  cases arguments with
  | nil => rw [List.take_nil]
  | cons c arguments =>
      cases n with
      | zero => exact absurd hn (Nat.lt_irrefl 0)
      | succ n => rfl

theorem executePending_eq (k : Keyer F) :
    executePending k =
      execute k.winkeyerPendingCommand (k.winkeyerArguments.take (parameterCount k.winkeyerPendingCommand)) k := by
  by_cases hcount : 0 < parameterCount k.winkeyerPendingCommand
  · rw [executePending, execute, headD_take hcount]
  · have hspeed : k.winkeyerPendingCommand ≠ 0x02 := fun h => hcount (by rw [h]; decide)
    have hweight : k.winkeyerPendingCommand ≠ 0x03 := fun h => hcount (by rw [h]; decide)
    have hkey : k.winkeyerPendingCommand ≠ 0x0B := fun h => hcount (by rw [h]; decide)
    simp only [executePending, execute, if_neg hspeed, if_neg hweight, if_neg hkey]

theorem winkeyerData_eq (c : UInt8) (k : Keyer F) : winkeyerData c k = (noted c k).2 := by
  by_cases hw : 0 < k.winkeyerWaitingForArguments
  · refine (if_pos hw).trans ?_
    rw [noted, outcome_argument (p := parser k) c hw, feed_argument (p := parser k) c hw]
    by_cases hlast : k.winkeyerWaitingForArguments - 1 = 0
    · refine (if_pos hlast).trans ?_
      rw [executePending_eq, if_pos (show (parser k).waiting - 1 = 0 from hlast)]
      rfl
    · refine (if_neg hlast).trans ?_
      rw [if_neg (show ¬ (parser k).waiting - 1 = 0 from hlast)]
      rfl
  · by_cases hs : (parser k).Starts c
    · refine ((if_neg hw).trans (if_pos hs)).trans ?_
      rw [noted, outcome_start (p := parser k) hw hs, feed_start (p := parser k) hw hs]
      by_cases hnone : UInt8.ofNat (parameterCount c) = 0
      · refine (if_pos hnone).trans ?_
        rw [executePending_eq, if_pos hnone]
        rfl
      · refine (if_neg hnone).trans ?_
        rw [if_neg hnone]
        rfl
    · refine ((if_neg hw).trans (if_neg hs)).trans ?_
      rw [noted, outcome_buffered (p := parser k) hw hs, feed_buffered (p := parser k) hw hs]
      rfl

theorem parser_noted (c : UInt8) (k : Keyer F) : parser (noted c k).2 = (parser k).feed c := by
  rw [← winkeyerData_eq]
  exact congrArg Line.parser (line_winkeyerData c k)

end

/-- What the bytes of a frame come to when its last one has arrived. -/
def completed (c : UInt8) (arguments : List UInt8) : List Outcome :=
  if FrameHead c then (c :: arguments).map .buffered
  else List.replicate arguments.length .collected ++ [.executed c arguments]

def begun (c : UInt8) (arguments : List UInt8) : List Outcome :=
  if FrameHead c then (c :: arguments).map .buffered else List.replicate (arguments.length + 1) .collected

/-- What the bytes of a stream come to, told from its frames. -/
def outcomes (q : Queue frameArity) : List Outcome :=
  q.pending.flatMap (fun f => completed f.head f.args) ++
    match q.started with
    | [] => []
    | c :: arguments => begun c arguments

/-- Where the parser is within a frame. -/
inductive Stands (p : FrameParser) : List UInt8 → Prop
  | between : p.waiting = 0 → p.remaining = 0 → Stands p []
  | collecting {c : UInt8} {arguments : List UInt8} : ¬ FrameHead c → p.pending = c → p.remaining = 0 →
      p.index.toNat = arguments.length → p.waiting ≠ 0 → arguments.length + p.waiting.toNat = parameterCount c →
      p.arguments.take arguments.length = arguments → Stands p (c :: arguments)
  | buffering {c : UInt8} {arguments : List UInt8} : FrameHead c → p.waiting = 0 → p.remaining ≠ 0 →
      arguments.length + p.remaining.toNat = frameArity c → Stands p (c :: arguments)

theorem completed_concat (c : UInt8) (arguments : List UInt8) (b : UInt8) :
    completed c (arguments ++ [b]) =
      begun c arguments ++ [if FrameHead c then .buffered b else .executed c (arguments ++ [b])] := by
  by_cases hhead : FrameHead c
  · rw [completed, begun, if_pos hhead, if_pos hhead, if_pos hhead, List.map_cons, List.map_append]
    rfl
  · rw [completed, begun, if_neg hhead, if_neg hhead, if_neg hhead, List.length_append, List.length_singleton]

theorem begun_concat (c : UInt8) (arguments : List UInt8) (b : UInt8) :
    begun c (arguments ++ [b]) = begun c arguments ++ [if FrameHead c then .buffered b else .collected] := by
  by_cases hhead : FrameHead c
  · rw [begun, begun, if_pos hhead, if_pos hhead, if_pos hhead, List.map_cons, List.map_append]
    rfl
  · rw [begun, begun, if_neg hhead, if_neg hhead, if_neg hhead, List.length_append, List.length_singleton,
      List.replicate_succ']

theorem outcomes_close (fs : List (Frame frameArity)) (c : UInt8) (arguments : List UInt8)
    (hle : arguments.length ≤ frameArity c) :
    outcomes (Queue.close fs c arguments hle) =
      fs.flatMap (fun f => completed f.head f.args) ++
        if arguments.length = frameArity c then completed c arguments else begun c arguments := by
  by_cases hlast : arguments.length = frameArity c
  · rw [Queue.close, dif_pos hlast, if_pos hlast]
    simp [outcomes]
  · rw [Queue.close, dif_neg hlast, if_neg hlast]
    rfl

theorem started_close (fs : List (Frame frameArity)) (c : UInt8) (arguments : List UInt8)
    (hle : arguments.length ≤ frameArity c) :
    (Queue.close fs c arguments hle).started = if arguments.length = frameArity c then [] else c :: arguments := by
  by_cases hlast : arguments.length = frameArity c
  · rw [Queue.close, dif_pos hlast, if_pos hlast]
  · rw [Queue.close, dif_neg hlast, if_neg hlast]

theorem starts_iff (c : UInt8) (p : FrameParser) : p.Starts c ↔ p.remaining = 0 ∧ ¬ FrameHead c := by
  rw [FrameParser.Starts, frameHead_iff, not_not]

theorem frameArity_eq {c : UInt8} (hhead : ¬ FrameHead c) : frameArity c = parameterCount c :=
  frameArity_command (not_not.mp ((frameHead_iff c).not.mp hhead)).1

theorem take_set_succ {l : List UInt8} {i : Nat} (hi : i < l.length) (c : UInt8) :
    (l.set i c).take (i + 1) = l.take i ++ [c] := by
  rw [List.take_add_one, List.take_set_of_le (Nat.le_refl i), List.getElem?_set_self hi]
  rfl

section

variable {p : FrameParser} {q : Queue frameArity}

theorem outcomes_put_of_nil (hs : q.started = []) (c : UInt8) :
    outcomes (q.put c) = outcomes q ++ (if 0 = frameArity c then completed c [] else begun c []) ∧
      (q.put c).started = if 0 = frameArity c then [] else [c] := by
  have hq : outcomes q = q.pending.flatMap fun f => completed f.head f.args := by
    rw [outcomes, hs, List.append_nil]
  rw [Queue.put_of_nil hs, outcomes_close, started_close, hq]
  exact ⟨rfl, rfl⟩

theorem not_waiting (hw : p.waiting = 0) : ¬ 0 < p.waiting := by
  rw [hw]
  decide

theorem remaining_feed_head {c : UInt8} (hw : p.waiting = 0) (hr : p.remaining = 0) (hhead : FrameHead c) :
    (p.feed c).waiting = 0 ∧ (p.feed c).remaining.toNat = frameArity c := by
  have hnot : ¬ p.Starts c := fun h => ((starts_iff c p).mp h).2 hhead
  rw [feed_buffered (not_waiting hw) hnot]
  refine ⟨hw, ?_⟩
  dsimp only
  rw [if_neg (by rw [hr]; decide), isWinkeyerBufferedCommand_of_head hhead, Bool.and_self, frameArity]
  split
  · exact toNat_parameterCount c
  · rfl

theorem parsed_head {c : UInt8} (hs : q.started = []) (hw : p.waiting = 0) (hr : p.remaining = 0)
    (hhead : FrameHead c) :
    outcomes (q.put c) = outcomes q ++ [outcome c p] ∧ Stands (p.feed c) (q.put c).started := by
  have hnot : ¬ p.Starts c := fun h => ((starts_iff c p).mp h).2 hhead
  obtain ⟨hwaiting, hremaining⟩ := remaining_feed_head hw hr hhead
  obtain ⟨hout, hstarted⟩ := outcomes_put_of_nil hs c
  rw [hout, hstarted, outcome_buffered (not_waiting hw) hnot]
  constructor
  · congr 1
    simp [completed, begun, hhead]
  · split
    · rename_i hnone
      exact .between hwaiting (UInt8.toNat_inj.mp (hremaining.trans hnone.symm))
    · rename_i hsome
      refine .buffering hhead hwaiting ?_ ?_
      · intro hzero
        rw [hzero] at hremaining
        exact hsome hremaining
      · rw [List.length_nil, Nat.zero_add, hremaining]

theorem parsed_command {c : UInt8} (hs : q.started = []) (hw : p.waiting = 0) (hr : p.remaining = 0)
    (hhead : ¬ FrameHead c) :
    outcomes (q.put c) = outcomes q ++ [outcome c p] ∧ Stands (p.feed c) (q.put c).started := by
  have hstarts : p.Starts c := (starts_iff c p).mpr ⟨hr, hhead⟩
  obtain ⟨hout, hstarted⟩ := outcomes_put_of_nil hs c
  rw [hout, hstarted, outcome_start (not_waiting hw) hstarts, feed_start (not_waiting hw) hstarts,
    frameArity_eq hhead]
  by_cases hnone : parameterCount c = 0
  · rw [hnone, if_pos rfl, if_pos rfl, if_pos (by decide)]
    refine ⟨?_, .between rfl hr⟩
    simp [completed, hhead]
  · have hcount := toNat_parameterCount c
    have hpos : UInt8.ofNat (parameterCount c) ≠ 0 := by
      intro hzero
      rw [hzero] at hcount
      exact hnone hcount.symm
    rw [if_neg (Ne.symm hnone), if_neg (Ne.symm hnone), if_neg hpos]
    refine ⟨?_, .collecting hhead rfl hr rfl hpos ?_ rfl⟩
    · simp [begun, hhead]
    · rw [List.length_nil, Nat.zero_add]
      exact hcount

theorem parsed_between (hs : q.started = []) (hw : p.waiting = 0) (hr : p.remaining = 0) (c : UInt8) :
    outcomes (q.put c) = outcomes q ++ [outcome c p] ∧ Stands (p.feed c) (q.put c).started := by
  by_cases hhead : FrameHead c
  · exact parsed_head hs hw hr hhead
  · exact parsed_command hs hw hr hhead

theorem outcomes_put_of_cons {c : UInt8} {arguments : List UInt8} (hs : q.started = c :: arguments) (b : UInt8)
    (hlt : arguments.length < frameArity c) :
    ∃ before, outcomes q = before ++ begun c arguments ∧
      outcomes (q.put b) = before ++ (if arguments.length + 1 = frameArity c then completed c (arguments ++ [b])
        else begun c (arguments ++ [b])) ∧
      (q.put b).started = if arguments.length + 1 = frameArity c then [] else c :: (arguments ++ [b]) := by
  have hlength : (arguments ++ [b]).length = arguments.length + 1 := List.length_append
  have hput := Queue.put_of_cons hs b (hlength.trans_le hlt)
  refine ⟨q.pending.flatMap fun f => completed f.head f.args, ?_, ?_, ?_⟩
  · rw [outcomes, hs]
  · rw [hput, outcomes_close, hlength]
  · rw [hput, started_close, hlength]

theorem parsed_collecting {c : UInt8} {arguments : List UInt8} (hs : q.started = c :: arguments)
    (hhead : ¬ FrameHead c) (hpending : p.pending = c) (hr : p.remaining = 0)
    (hindex : p.index.toNat = arguments.length) (hw : p.waiting ≠ 0)
    (hcount : arguments.length + p.waiting.toNat = parameterCount c)
    (htake : p.arguments.take arguments.length = arguments) (hlen : p.arguments.length = 15) (b : UInt8) :
    outcomes (q.put b) = outcomes q ++ [outcome b p] ∧ Stands (p.feed b) (q.put b).started := by
  have hpos : 0 < p.waiting := (pos_iff_ne_zero p.waiting).mpr hw
  have hbound := parameterCount_le c
  have hwaiting : p.waiting.toNat ≠ 0 := fun h => hw (UInt8.toNat_inj.mp h)
  have hless := toNat_sub_one hw
  have hlength : (arguments ++ [b]).length = arguments.length + 1 := List.length_append
  have htaken : (p.arguments.set p.index.toNat b).take (arguments.length + 1) = arguments ++ [b] := by
    rw [hindex, take_set_succ (by omega), htake]
  have harity : frameArity c = parameterCount c := frameArity_eq hhead
  obtain ⟨before, hq, hout, hstarted⟩ := outcomes_put_of_cons hs b (by omega)
  rw [hq, hout, hstarted, harity, List.append_assoc, outcome_argument b hpos, feed_argument b hpos, hpending]
  by_cases hlast : arguments.length + 1 = parameterCount c
  · have hzero : p.waiting - 1 = 0 := by
      apply UInt8.toNat_inj.mp
      rw [hless, UInt8.toNat_zero]
      omega
    rw [if_pos hlast, if_pos hlast, if_pos hzero, completed_concat, if_neg hhead, ← hlast, htaken]
    exact ⟨rfl, .between hzero hr⟩
  · have hmore : p.waiting - 1 ≠ 0 := by
      intro hzero
      rw [hzero, UInt8.toNat_zero] at hless
      omega
    rw [if_neg hlast, if_neg hlast, if_neg hmore, begun_concat, if_neg hhead]
    refine ⟨rfl, .collecting hhead rfl hr ?_ hmore ?_ ?_⟩
    · have hroom : p.index.toNat < 255 := by omega
      rw [hlength, ← hindex]
      exact BitVec.toNat_add_of_lt (y := 1) (Nat.succ_lt_succ hroom)
    · rw [hlength, hless]
      omega
    · rw [hlength]
      exact htaken

theorem parsed_buffering {c : UInt8} {arguments : List UInt8} (hs : q.started = c :: arguments)
    (hhead : FrameHead c) (hw : p.waiting = 0) (hr : p.remaining ≠ 0)
    (hcount : arguments.length + p.remaining.toNat = frameArity c) (b : UInt8) :
    outcomes (q.put b) = outcomes q ++ [outcome b p] ∧ Stands (p.feed b) (q.put b).started := by
  have hnot : ¬ p.Starts b := fun h => hr ((starts_iff b p).mp h).1
  have hremaining : p.remaining.toNat ≠ 0 := fun h => hr (UInt8.toNat_inj.mp h)
  have hless := toNat_sub_one hr
  have hlength : (arguments ++ [b]).length = arguments.length + 1 := List.length_append
  obtain ⟨before, hq, hout, hstarted⟩ := outcomes_put_of_cons hs b (by omega)
  rw [hq, hout, hstarted, List.append_assoc, outcome_buffered (not_waiting hw) hnot,
    feed_buffered (not_waiting hw) hnot, if_pos ((pos_iff_ne_zero p.remaining).mpr hr)]
  by_cases hlast : arguments.length + 1 = frameArity c
  · rw [if_pos hlast, if_pos hlast, completed_concat, if_pos hhead]
    refine ⟨rfl, .between hw ?_⟩
    apply UInt8.toNat_inj.mp
    rw [hless, UInt8.toNat_zero]
    omega
  · rw [if_neg hlast, if_neg hlast, begun_concat, if_pos hhead]
    refine ⟨rfl, .buffering hhead hw ?_ ?_⟩
    · intro hzero
      have hzero' : p.remaining - 1 = 0 := hzero
      rw [hzero', UInt8.toNat_zero] at hless
      omega
    · rw [hlength, hless]
      omega

/-- A byte takes the parser and the frames one step together. -/
theorem parsed_feed (h : Stands p q.started) (hlen : p.arguments.length = 15) (c : UInt8) :
    outcomes (q.put c) = outcomes q ++ [outcome c p] ∧ Stands (p.feed c) (q.put c).started := by
  generalize hs : q.started = started at h
  cases h with
  | between hw hr => exact parsed_between hs hw hr c
  | collecting hhead hpending hr hindex hw hcount htake =>
      exact parsed_collecting hs hhead hpending hr hindex hw hcount htake hlen c
  | buffering hhead hw hr hcount => exact parsed_buffering hs hhead hw hr hcount c

theorem length_feed (c : UInt8) : (p.feed c).arguments.length = p.arguments.length := by
  rw [FrameParser.feed]
  split
  · exact List.length_set
  split <;> rfl

theorem Stands.index_add_waiting {started : List UInt8} (h : Stands p started) (hw : 0 < p.waiting) :
    p.index.toNat + p.waiting.toNat = parameterCount p.pending ∧ p.index.toNat < 15 := by
  have hne := (pos_iff_ne_zero p.waiting).mp hw
  cases h with
  | between hzero _ => exact absurd hzero hne
  | @collecting c arguments _ hpending _ hindex _ hcount _ =>
      have hbound := parameterCount_le c
      have hpos : p.waiting.toNat ≠ 0 := fun h => hne (UInt8.toNat_inj.mp h)
      rw [hindex, hpending]
      exact ⟨hcount, by omega⟩
  | buffering _ hzero _ _ => exact absurd hzero hne

end

section

variable {F : Type} [SinglePrecision F]

/-- The bytes of a stream are frames, text and buffered commands among them. Each byte of these goes to the
buffer, and each immediate command is executed once, when its last argument has come, with these arguments. -/
theorem immediate_executed_once (a : Answers) (bytes : List UInt8) :
    let run := replay noted bytes (init a (Keyer.zero : Keyer F))
    let frames : Queue frameArity := Queue.ofSymbols bytes
    run.2 = bytes.foldl (fun k c => winkeyerData c k) (init a Keyer.zero) ∧ frames.symbols = bytes ∧
      run.1 = outcomes frames ∧ run.2.winkeyerArguments.length = 15 ∧
      (0 < run.2.winkeyerWaitingForArguments →
        run.2.winkeyerArgumentIndex.toNat + run.2.winkeyerWaitingForArguments.toNat =
            parameterCount run.2.winkeyerPendingCommand ∧
          run.2.winkeyerArgumentIndex.toNat < 15) := by
  intro run frames
  have hstart : Stands (parser (init a (Keyer.zero : Keyer F))) (Queue.nil : Queue frameArity).started ∧
      (parser (init a (Keyer.zero : Keyer F))).arguments.length = 15 := ⟨.between rfl rfl, rfl⟩
  have hstep (c : UInt8) (k : Keyer F) (q : Queue frameArity)
      (h : Stands (parser k) q.started ∧ (parser k).arguments.length = 15) :
      outcomes (q.put c) = outcomes q ++ [(noted c k).1] ∧
        Stands (parser (noted c k).2) (q.put c).started ∧ (parser (noted c k).2).arguments.length = 15 := by
    obtain ⟨hout, hstands⟩ := parsed_feed h.1 h.2 c
    rw [parser_noted, length_feed]
    exact ⟨hout, hstands, h.2⟩
  obtain ⟨hout, hstands, hlen⟩ := replay_log hstep bytes hstart
  have hcode : run.2 = bytes.foldl (fun k c => winkeyerData c k) (init a Keyer.zero) := by
    rw [show run.2 = _ from replay_snd noted bytes _]
    congr 1
    funext k c
    exact (winkeyerData_eq c k).symm
  exact ⟨hcode, Queue.symbols_ofSymbols bytes, hout.symm, hlen, hstands.index_add_waiting⟩

/-- The key command in the arguments of another command is an argument. -/
example : outcomes (Queue.ofSymbols [0x04, 0x0B, 1]) = [.collected, .collected, .executed 0x04 [0x0B, 1]] := by decide

end

end Cwsd.WinkeyerArguments

import Cwsd.KeyRelease
import Cwsd.MessageEffects

namespace Cwsd.ServiceSteps

open KeyerState KeyerMachine KeyerPass CwDaemon UdpServer CwdaemonServer WinkeyerFeed KeyLine KeyRelease Runs
    WinkeyerEffects MessageEffects

section

variable {F : Type} [SinglePrecision F]

def setSpeed (p : Pace F) : UInt8 := SinglePrecision.toUInt8 p.characterWpm

/-- The message that client_worker gets when it is in receive. -/
def arrival (s : Service F) : Action → Option (List UInt8)
  | .client input => if s.client = .receiving then receive input.arrived else none
  | .keyer _ | .stop => none

/-- Everything one step of the service can do to the keyer and to the bytes that are still to be fed
to it. -/
inductive Advance (char : CharType) (act : Action) (s s' : Service F) : Prop
  | quiet (hesc : ∀ message ∈ arrival s act, message.headD 0 = esc) (hkeyer : s'.keyer = s.keyer)
      (hfeed : toFeed s'.client = toFeed s.client)
  | carrier (hesc : ∀ message ∈ arrival s act, message.headD 0 = esc) (hkeyer : s'.keyer = s.keyer)
      (hfeed : toFeed s.client = []) (hfeed' : toFeed s'.client = carrierOff)
  | message (message wkData : List UInt8) (hm : arrival s act = some message) (hfeed : toFeed s.client = [])
      (hw : toWinkeyer char message (setSpeed (pace s.keyer)) = .ok wkData)
      (hkeyer : s'.keyer = s.keyer) (hfeed' : toFeed s'.client = commandBytes wkData)
  | byte (hnone : arrival s act = none) (input : Input) (hact : act = .client input) (c : UInt8)
      (bytes : List UInt8) (hfeed : toFeed s.client = c :: bytes)
      (hkeyer : s'.keyer = winkeyerData c s.keyer) (hfeed' : toFeed s'.client = bytes)
  | tick (hnone : arrival s act = none) (hardware : Fin maxTransitionsPerTick → Readings)
      (hkeyer : s'.keyer = update (fun i => keyInterface (hardware i)) s.keyer)
      (hfeed : toFeed s'.client = toFeed s.client)

omit [SinglePrecision F] in
theorem escape_of_none {s : Service F} {act : Action} (h : arrival s act = none) :
    ∀ message ∈ arrival s act, message.headD 0 = esc := by
  intro message hm
  rw [h] at hm
  cases hm

omit [SinglePrecision F] in
theorem arrival_other {s : Service F} (hpc : s.client ≠ .receiving) (input : Input) :
    arrival s (.client input) = none :=
  if_neg hpc

theorem headD_of_escape {message : List UInt8} {c : UInt8}
    (h : (decide (1 < message.length) && message.getD 0 0 == 27 && message.getD 1 0 == c) = true) :
    message.headD 0 = esc := by
  simp only [Bool.and_eq_true, beq_iff_eq] at h
  cases message with
  | nil => exact h.1.2
  | cons first rest => exact h.1.2

theorem advance_handleMessage {char : CharType} {message : List UInt8} {input : Input} {s s' : Service F}
    (hpc : s.client = .receiving) (hm : receive input.arrived = some message)
    (hs : handleMessage char message input.clock s = .ok s') : Advance char (.client input) s s' := by
  have harrival : arrival s (.client input) = some message := (if_pos hpc).trans hm
  have hfeed : toFeed s.client = [] := by rw [hpc]; rfl
  have hesc (h : message.headD 0 = esc) : ∀ other ∈ arrival s (.client input), other.headD 0 = esc := by
    intro other hother
    rw [harrival] at hother
    cases hother
    exact h
  simp only [handleMessage] at hs
  split at hs
  · rename_i hexit
    cases hs
    exact .quiet (hesc (headD_of_escape hexit)) rfl hfeed.symm
  split at hs
  · rename_i habort
    cases hs
    rw [Bool.and_eq_true] at habort
    exact .carrier (hesc (headD_of_escape habort.2)) rfl hfeed rfl
  · cases hw : toWinkeyer char message (SinglePrecision.toUInt8 (getSpeed s.keyer)) with
    | error e =>
        rw [hw] at hs
        cases hs
    | ok wkData =>
        rw [hw] at hs
        cases hs
        refine .message message wkData harrival hfeed hw ?_ ?_
        · simp only [startFeeding]
          split <;> rfl
        · simp only [startFeeding, commandBytes]
          split <;> rfl

theorem advance_client {char : CharType} {input : Input} {s s' : Service F}
    (hs : clientStep char input s = .ok s') :
    Advance char (.client input) s s' := by
  have hother (hpc : s.client ≠ .receiving) : ∀ message ∈ arrival s (.client input), message.headD 0 = esc :=
    escape_of_none (arrival_other hpc input)
  cases hpc : s.client with
  | loop =>
      simp only [clientStep, hpc] at hs
      cases hs
      refine .quiet (hother (by simp [hpc])) rfl ?_
      rw [hpc]
      dsimp only
      split <;> rfl
  | receiving =>
      cases hm : receive input.arrived with
      | none =>
          have harrival : arrival s (.client input) = none := (if_pos hpc).trans hm
          simp only [clientStep, hpc, hm] at hs
          cases hs
          exact .quiet (escape_of_none harrival) rfl (by rw [hpc]; rfl)
      | some message =>
          rw [clientStep_receiving char hpc hm] at hs
          exact advance_handleMessage hpc hm hs
  | feeding bytes =>
      have hnot : s.client ≠ .receiving := by simp [hpc]
      cases bytes with
      | nil =>
          simp only [clientStep, hpc] at hs
          cases hs
          exact .quiet (hother hnot) rfl (by rw [hpc]; rfl)
      | cons c bytes =>
          simp only [clientStep, hpc] at hs
          cases hs
          exact .byte (arrival_other hnot input) input rfl c bytes (by rw [hpc]; rfl) rfl rfl
  | polling =>
      have hnot : s.client ≠ .receiving := by simp [hpc]
      simp only [clientStep, hpc] at hs
      cases hs
      by_cases hend : (s.isTuning && decide (s.tuneEndTime < input.clock)) = true
      · refine .carrier (hother hnot) rfl (by rw [hpc]; rfl) ?_
        dsimp only
        rw [if_pos hend]
        rfl
      · refine .quiet (hother hnot) rfl ?_
        dsimp only
        rw [if_neg hend, hpc]
        rfl
  | endTuning bytes =>
      have hnot : s.client ≠ .receiving := by simp [hpc]
      cases bytes with
      | nil =>
          simp only [clientStep, hpc] at hs
          cases hs
          exact .quiet (hother hnot) rfl (by rw [hpc]; rfl)
      | cons c bytes =>
          simp only [clientStep, hpc] at hs
          cases hs
          exact .byte (arrival_other hnot input) input rfl c bytes (by rw [hpc]; rfl) rfl rfl
  | returned =>
      simp only [clientStep, hpc] at hs
      cases hs
      exact .quiet (hother (by simp [hpc])) rfl rfl

/-- The inversion of one step of the service. -/
theorem advance_of_step {char : CharType} {act : Action} {s s' : Service F} (hs : step char s act = some s') :
    Advance char act s s' := by
  cases act with
  | client input => exact advance_client (step_client hs)
  | keyer hardware =>
      cases hs
      cases hk : s.keyerThread with
      | loop | returned =>
          refine .quiet (escape_of_none rfl) ?_ ?_
          · simp only [keyerStep, hk]
          · simp only [keyerStep, hk]
      | ticking =>
          refine .tick rfl hardware ?_ ?_
          · simp only [keyerStep, hk]
          · simp only [keyerStep, hk]
  | stop =>
      cases hs
      exact .quiet (escape_of_none rfl) rfl rfl

theorem parser_winkeyerData (c : UInt8) (k : Keyer F) : parser (winkeyerData c k) = (parser k).feed c :=
  congrArg Line.parser (line_winkeyerData c k)

def todo (s : Service F) : List Effect := effects (toFeed s.client) (parser s.keyer)

def nextEffects (s : Service F) : List Effect :=
  match toFeed s.client with
  | [] => []
  | c :: _ => effect c (parser s.keyer)

/-- Each effect comes where performs allows it, and each message where receives does. -/
def Allowed (performs : Pace F → Effect → Prop) (receives : Pace F → List UInt8 → Prop) (s : Service F) :
    Action → Prop
  | .client input => (∀ e ∈ nextEffects s, performs (pace s.keyer) e) ∧
      ∀ message ∈ arrival s (.client input), receives (pace s.keyer) message
  | .keyer _ | .stop => True

instance (performs : Pace F → Effect → Prop) [∀ p e, Decidable (performs p e)]
    (receives : Pace F → List UInt8 → Prop) [∀ p message, Decidable (receives p message)] (s : Service F)
    (act : Action) :
    Decidable (Allowed performs receives s act) :=
  match act with
  | .client input => inferInstanceAs (Decidable (_ ∧ ∀ message ∈ arrival s (.client input),
      receives (pace s.keyer) message))
  | .keyer _ | .stop => inferInstanceAs (Decidable True)

omit [SinglePrecision F] in
theorem Allowed.receives {performs : Pace F → Effect → Prop} {receives : Pace F → List UInt8 → Prop}
    {s : Service F} {act : Action} (h : Allowed performs receives s act) {message : List UInt8}
    (hm : arrival s act = some message) :
    receives (pace s.keyer) message := by
  cases act with
  | client input => exact h.2 message hm
  | keyer _ | stop => cases hm

theorem effect_length (c : UInt8) (p : FrameParser) : effect c p = [] ∨ ∃ e, effect c p = [e] := by
  have hexec (p : FrameParser) : execution p = [] ∨ ∃ e, execution p = [e] := by
    rw [execution]
    split
    · exact .inr ⟨_, rfl⟩
    split
    · exact .inr ⟨_, rfl⟩
    · exact .inl rfl
  rw [effect]
  split
  · split
    · exact hexec _
    · exact .inl rfl
  · exact .inr ⟨_, rfl⟩

theorem keyInterface_released (r : Readings) : (keyInterface r).Released := fun _ => ⟨rfl, rfl⟩

theorem passes_fetch (inv : Pace F → Prop) (hinv : ∀ p p', Fetch p p' → inv p → inv p')
    (passes : List Readings) {k : Keyer F} (hk : (pace k).latched = false) (h : inv (pace k)) :
    (pace (updateLoop (passes.map keyInterface) k)).latched = false ∧
      inv (pace (updateLoop (passes.map keyInterface) k)) := by
  refine updateLoop_fetches hinv ?_ hk h
  intro a ha
  obtain ⟨r, -, rfl⟩ := List.mem_map.mp ha
  exact keyInterface_released r

theorem update_fetches (inv : Pace F → Prop) (hinv : ∀ p p', Fetch p p' → inv p → inv p')
    (hardware : Fin maxTransitionsPerTick → Readings) {k : Keyer F} (hk : (pace k).latched = false)
    (h : inv (pace k)) :
    (pace (update (fun i => keyInterface (hardware i)) k)).latched = false ∧
      inv (pace (update (fun i => keyInterface (hardware i)) k)) := by
  have hpasses := passes_fetch inv hinv (List.ofFn hardware) hk h
  rw [List.map_ofFn] at hpasses
  exact hpasses

/-- An invariant of the buffer, the speeds and the effects to come, with what it rests on. -/
structure Serving (inv : Pace F → List Effect → Prop) (s : Service F) : Prop where
  ready : Ready ((parser s.keyer).feedAll (toFeed s.client))
  unlatched : (pace s.keyer).latched = false
  inv : inv (pace s.keyer) (todo s)

theorem latched_perform (es : List Effect) (p : Pace F) : (es.foldl Pace.perform p).latched = p.latched := by
  induction es generalizing p with
  | nil => rfl
  | cons e es ih =>
      refine (ih (p.perform e)).trans ?_
      cases e <;> rfl

section

variable {inv : Pace F → List Effect → Prop} {s s' : Service F}

omit [SinglePrecision F] in
theorem Serving.unchanged (h : Serving inv s) (hkeyer : s'.keyer = s.keyer)
    (hfeed : toFeed s'.client = toFeed s.client) : Serving inv s' where
  ready := by
    rw [hkeyer, hfeed]
    exact h.ready
  unlatched := by
    rw [hkeyer]
    exact h.unlatched
  inv := by
    rw [todo, hkeyer, hfeed]
    exact h.inv

omit [SinglePrecision F] in
theorem Serving.begins {inv' : Pace F → List Effect → Prop} {bytes : List UInt8} {es : List Effect}
    (h : Serving inv s) (hkeyer : s'.keyer = s.keyer) (hfeed : toFeed s.client = [])
    (hfeed' : toFeed s'.client = bytes) (hemits : Emits bytes es)
    (hes : inv (pace s.keyer) [] → inv' (pace s.keyer) es) : Serving inv' s' := by
  have hready := h.ready
  have hinv := h.inv
  rw [hfeed] at hready
  rw [todo, hfeed] at hinv
  obtain ⟨hready', heffects⟩ := hemits (parser s.keyer) hready
  refine ⟨?_, ?_, ?_⟩
  · rw [hkeyer, hfeed']
    exact hready'
  · rw [hkeyer]
    exact h.unlatched
  · rw [todo, hkeyer, hfeed', heffects]
    exact hes hinv

theorem Serving.feeds {c : UInt8} {bytes : List UInt8} (h : Serving inv s)
    (hkeyer : s'.keyer = winkeyerData c s.keyer) (hfeed : toFeed s.client = c :: bytes)
    (hfeed' : toFeed s'.client = bytes)
    (hperform : ∀ e ∈ effect c (parser s.keyer), ∀ es,
      inv (pace s.keyer) (e :: es) → inv ((pace s.keyer).perform e) es) : Serving inv s' := by
  have hready := h.ready
  have hinv := h.inv
  have htodo : todo s = effect c (parser s.keyer) ++ effects bytes ((parser s.keyer).feed c) := by
    rw [todo, hfeed]
    rfl
  rw [hfeed] at hready
  rw [htodo] at hinv
  have hpace := pace_winkeyerData c s.keyer
  refine ⟨?_, ?_, ?_⟩
  · rw [hkeyer, hfeed', parser_winkeyerData]
    exact hready
  · rw [hkeyer, hpace, latched_perform]
    exact h.unlatched
  · rw [todo, hkeyer, hfeed', parser_winkeyerData, hpace]
    rcases effect_length c (parser s.keyer) with heff | ⟨e, heff⟩
    · rw [heff] at hinv ⊢
      exact hinv
    · rw [heff] at hinv hperform ⊢
      exact hperform e List.mem_cons_self _ hinv

end

theorem ready_init (a : Readings) : Ready (parser (init (keyInterface a) (Keyer.zero : Keyer F))) :=
  ⟨⟨rfl, rfl⟩, nofun⟩

theorem ready_start (a : Readings) (initialWpm : UInt8) :
    Ready (parser (start a initialWpm : Service F).keyer) := by
  have hfed := (emits_speed initialWpm (parser (init (keyInterface a) (Keyer.zero : Keyer F))) (ready_init a)).1
  rw [start, parser_winkeyerData, parser_winkeyerData]
  exact hfed

theorem pace_start (a : Readings) (initialWpm : UInt8) :
    pace (start a initialWpm : Service F).keyer =
      { latched := false, buffer := .ofSize 160 (by decide), log := [], speed := (initialWpm.toNat : F)
        characterWpm := (initialWpm.toNat : F), farnsworthWpm := (initialWpm.toNat : F) } := by
  have hfed := (emits_speed initialWpm (parser (init (keyInterface a) (Keyer.zero : Keyer F))) (ready_init a)).2
  simp only [effects, List.append_nil] at hfed
  rw [start, pace_winkeyerData, pace_winkeyerData, parser_winkeyerData, ← List.foldl_append, hfed]
  rfl

def note {γ : Type} (record : Pace F → List UInt8 → γ → γ) (s : Service F) (act : Action) (g : γ) : γ :=
  match arrival s act with
  | none => g
  | some message => record (pace s.keyer) message g

section

variable {γ : Type} {char : CharType} (inv : γ → Pace F → List Effect → Prop)
    {performs : Pace F → Effect → Prop}
  {receives : Pace F → List UInt8 → Prop} (record : Pace F → List UInt8 → γ → γ)
  (hesc : ∀ p message g, message.headD 0 = esc → record p message g = g)
  (hfetch : ∀ g p p' es, Fetch p p' → inv g p es → inv g p' es)
  (hperform : ∀ g p e es, performs p e → inv g p (e :: es) → inv g (p.perform e) es)
  (hreceive : ∀ g p message es, receives p message → Translation char message (setSpeed p) es → inv g p [] →
    inv (record p message g) p es)

include hesc hfetch hperform hreceive

theorem serving_step {act : Action} {s s' : Service F} {g : γ} (h : Serving (inv g) s)
    (hok : Allowed performs receives s act) (hs : step char s act = some s') :
    Serving (inv (note record s act g)) s' := by
  have hsame (hcommand : ∀ message ∈ arrival s act, message.headD 0 = esc) : note record s act g = g := by
    rw [note]
    split
    · rfl
    · rename_i message hm
      exact hesc _ message g (hcommand message hm)
  have hnothing (hnone : arrival s act = none) : note record s act g = g := hsame (escape_of_none hnone)
  cases advance_of_step hs with
  | quiet hcommand hkeyer hfeed =>
      rw [hsame hcommand]
      exact h.unchanged hkeyer hfeed
  | carrier hcommand hkeyer hfeed hfeed' =>
      rw [hsame hcommand]
      exact h.begins hkeyer hfeed hfeed' emits_carrierOff id
  | message message wkData hm hfeed hw hkeyer hfeed' =>
      obtain ⟨es, htranslation, hemits⟩ := translation_of_ok hw
      have hrecord : note record s act g = record (pace s.keyer) message g := by rw [note, hm]
      rw [hrecord]
      refine h.begins hkeyer hfeed hfeed' hemits fun hidle => ?_
      exact hreceive g _ message es (hok.receives hm) htranslation hidle
  | byte hnone input hact c bytes hfeed hkeyer hfeed' =>
      rw [hnothing hnone]
      have hnext : nextEffects s = effect c (parser s.keyer) := by
        rw [nextEffects, hfeed]
      subst hact
      have hallowed := hok.1
      rw [hnext] at hallowed
      exact h.feeds hkeyer hfeed hfeed' fun e he es => hperform g _ e es (hallowed e he)
  | tick hnone hardware hkeyer hfeed =>
      rw [hnothing hnone]
      have hparser : parser s'.keyer = parser s.keyer := by
        rw [hkeyer]
        exact parser_update _ s.keyer
      obtain ⟨hunlatched, hinv'⟩ := update_fetches (inv g · (todo s)) (hfetch g · · (todo s)) hardware
        h.unlatched h.inv
      rw [← hkeyer] at hunlatched hinv'
      refine ⟨?_, hunlatched, ?_⟩
      · rw [hparser, hfeed]
        exact h.ready
      · rw [todo, hparser, hfeed]
        exact hinv'

/-- What the start, every fetch, every allowed effect and every allowed message keep holds in every run. -/
theorem serving_observed {a : Readings} {initialWpm : UInt8} {g₀ g : γ} {acts : List Action} {s : Service F}
    (hstart : inv g₀ (pace (start a initialWpm : Service F).keyer) [])
    (h : Run (observed (step char) (note record)) (fun w act => Allowed performs receives w.1 act)
      (start a initialWpm, g₀) acts (s, g)) :
    Serving (inv g) s := by
  refine h.invariant (fun w => Serving (inv w.2) w.1) ⟨ready_start a initialWpm, ?_, hstart⟩ ?_
  · rw [pace_start]
  · rintro w act w' hw hok hstep
    obtain ⟨hs, hg⟩ := observed_eq_some.mp hstep
    rw [hg]
    exact serving_step inv record hesc hfetch hperform hreceive hw hok hs

end

theorem serving_run {char : CharType} (inv : Pace F → List Effect → Prop)
    {performs : Pace F → Effect → Prop} {receives : Pace F → List UInt8 → Prop}
    (hfetch : ∀ p p' es, Fetch p p' → inv p es → inv p' es)
    (hperform : ∀ p e es, performs p e → inv p (e :: es) → inv (p.perform e) es)
    (hreceive : ∀ p message es, receives p message → Translation char message (setSpeed p) es → inv p [] → inv p es)
    {a : Readings} {initialWpm : UInt8} {acts : List Action} {s : Service F}
    (hstart : inv (pace (start a initialWpm : Service F).keyer) [])
    (h : Run (step char) (Allowed performs receives) (start a initialWpm) acts s) : Serving inv s := by
  refine h.invariant (Serving inv) ⟨ready_start a initialWpm, ?_, hstart⟩ ?_
  · rw [pace_start]
  · intro s act s' hs hok hstep
    exact serving_step (fun _ : Unit => inv) (fun _ _ g => g) (fun _ _ _ _ => rfl) (fun _ => hfetch)
      (fun _ => hperform) (fun _ => hreceive) (g := ()) hs hok hstep

theorem serving_next {char : CharType} {act : Action} {s s' : Service F} (h : Serving (fun _ _ => True) s)
    (hs : step char s act = some s') : Serving (fun _ _ => True) s' := by
  have hok : Allowed (fun _ _ => True) (fun _ _ => True) s act := by
    cases act with
    | client input => exact ⟨fun _ _ => trivial, fun _ _ => trivial⟩
    | keyer _ | stop => trivial
  exact serving_step (fun _ : Unit => fun _ _ => True) (fun _ _ g => g) (fun _ _ _ _ => rfl)
    (fun _ _ _ _ _ _ => trivial) (fun _ _ _ _ _ _ => trivial) (fun _ _ _ _ _ _ _ => trivial) (g := ()) h hok hs

theorem serving_any {char : CharType} {a : Readings} {initialWpm : UInt8} {acts : List Action} {s : Service F}
    (h : Run (step char) (fun _ _ => True) (start a initialWpm) acts s) : Serving (fun _ _ => True) s := by
  refine h.invariant (Serving fun _ _ => True) ⟨ready_start a initialWpm, ?_, trivial⟩
    fun _ _ _ hserving _ hs => serving_next hserving hs
  rw [pace_start]

omit [SinglePrecision F] in
theorem Serving.fed {inv : Pace F → List Effect → Prop} {s : Service F} (h : Serving inv s)
    (hfed : toFeed s.client = []) : Ready (parser s.keyer) := by
  have hready := h.ready
  rwa [hfed] at hready

theorem ready_run {char : CharType} {a : Readings} {initialWpm : UInt8} {acts : List Action} {s : Service F}
    (h : Run (step char) (fun _ _ => True) (start a initialWpm) acts s) (hfed : toFeed s.client = []) :
    Ready (parser s.keyer) := (serving_any h).fed hfed

end

end Cwsd.ServiceSteps

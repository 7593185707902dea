import Cwsd.ServiceSteps

namespace Cwsd.InlineSpeed

open KeyerState KeyerMachine CwDaemon CwdaemonServer WinkeyerFeed KeyRelease Runs WinkeyerEffects
    MessageEffects ServiceSteps
open WinkeyerFraming (frameArity frameArity_text)

def lastInline : List UInt8 → Option UInt8
  | [] => none
  | [_] => none
  | c :: v :: rest => if c = 0x1C then some ((lastInline rest).getD v) else lastInline (v :: rest)

theorem lastInline_text {c : UInt8} (hc : isWinkeyerCommand c = false) (rest : List UInt8) :
    lastInline (c :: rest) = lastInline rest := by
  have hne : c ≠ 0x1C := by
    rintro rfl
    cases hc
  cases rest with
  | nil => rfl
  | cons v rest => rw [lastInline, if_neg hne]

theorem settles_from {w f : UInt8} {xs : List UInt8} (h : Settles w xs f) (u : UInt8) :
    Settles u xs ((lastInline xs).getD u) := by
  induction h generalizing u with
  | nil => exact .nil
  | text hc h ih =>
      rw [lastInline_text hc]
      exact .text hc (ih u)
  | speed h ih =>
      rw [lastInline, if_pos rfl]
      exact .speed (ih _)

section

variable {F : Type} [SinglePrecision F]

/-- An inline speed change is not cut off from the frame that takes it back: a full buffer drops
only text, a set speed agrees with the last change that is still queued, and the buffer is cleared
at the set speed. -/
def KeepsSpeed (p : Pace F) : Effect → Prop
  | .put _ => p.buffer.full = true → isWinkeyerCommand p.buffer.peek = false
  | .speed wpm => ∀ v ∈ lastInline p.buffer.contents, v = wpm
  | .clear => p.speed = p.characterWpm

instance [DecidableEq F] (p : Pace F) (e : Effect) : Decidable (KeepsSpeed p e) :=
  match e with
  | .put _ => inferInstanceAs (Decidable (_ → _))
  | .speed wpm => inferInstanceAs (Decidable (∀ v ∈ lastInline p.buffer.contents, v = wpm))
  | .clear => inferInstanceAs (Decidable (p.speed = p.characterWpm))

/-- The buffered frames and the bytes to come lead back to the set speed. -/
inductive Restores (p : Pace F) : List Effect → Prop
  | text (w c : UInt8) (hspeed : p.speed = (w.toNat : F)) (hset : p.characterWpm = (c.toNat : F))
      (bytes : List UInt8)
      (hsettles : Settles w (p.buffer.contents ++ bytes) c) : Restores p (bytes.map .put)
  | command (w c : UInt8) (hspeed : p.speed = (w.toNat : F)) (hset : p.characterWpm = (c.toNat : F))
      (e : Effect)
      (hput : ∀ b, e ≠ .put b) (hsettles : Settles w p.buffer.contents c) : Restores p [e]

omit [SinglePrecision F] in
theorem Settles.cons_iff {w c f : UInt8} {rest : List UInt8} (h : Settles w (c :: rest) f) :
    isWinkeyerCommand c = false ∧ Settles w rest f ∨
      c = 0x1C ∧ ∃ v tail, rest = v :: tail ∧ Settles v tail f := by
  cases h with
  | text hc h => exact .inl ⟨hc, h⟩
  | speed h => exact .inr ⟨rfl, _, _, rfl, h⟩

theorem settles_fetch {p p' : Pace F} (h : Fetch p p') {w c : UInt8} (hspeed : p.speed = (w.toNat : F))
    {bytes : List UInt8} (hsettles : Settles w (p.buffer.contents ++ bytes) c) :
    ∃ w', p'.speed = (w'.toNat : F) ∧ p'.characterWpm = p.characterWpm ∧
      Settles w' (p'.buffer.contents ++ bytes) c := by
  cases h with
  | same heq =>
      subst heq
      exact ⟨w, hspeed, rfl, hsettles⟩
  | take head rest hbuf hlen hne buffer hrest hmax heq =>
      subst heq
      rw [hbuf] at hsettles
      rcases Settles.cons_iff hsettles with ⟨hc, hsettles⟩ | ⟨rfl, v, tail, htail, hsettles⟩
      · have hnot : head ≠ 0x1C := by
          rintro rfl
          cases hc
        refine ⟨w, (if_neg hnot).trans hspeed, rfl, ?_⟩
        dsimp only
        rw [hrest, frameArity_text hc]
        exact hsettles
      · have harity : frameArity 0x1C = 1 := by decide
        rw [harity] at hlen hrest
        cases rest with
        | nil => cases hlen
        | cons first rest =>
            obtain ⟨rfl, rfl⟩ := List.cons.inj htail
            refine ⟨first, ?_, rfl, ?_⟩
            · dsimp only
              rw [if_pos rfl]
              rfl
            dsimp only
            rw [hrest]
            exact hsettles
  | reset rest hbuf buffer hempty hmax heq =>
      rw [hbuf] at hsettles
      rcases Settles.cons_iff hsettles with ⟨hc, -⟩ | ⟨hc, -⟩
      · cases hc
      · cases hc

theorem restores_fetch {p p' : Pace F} {es : List Effect} (h : Fetch p p') (hp : Restores p es) :
    Restores p' es := by
  cases hp with
  | text w c hspeed hset bytes hsettles =>
      obtain ⟨w', hspeed', hset', hsettles'⟩ := settles_fetch h hspeed hsettles
      exact .text w' c hspeed' (hset'.trans hset) bytes hsettles'
  | command w c hspeed hset e hput hsettles =>
      rw [← List.append_nil p.buffer.contents] at hsettles
      obtain ⟨w', hspeed', hset', hsettles'⟩ := settles_fetch h hspeed hsettles
      rw [List.append_nil] at hsettles'
      exact .command w' c hspeed' (hset'.trans hset) e hput hsettles'

omit [SinglePrecision F] in
theorem settles_put {p : Pace F} {b w c : UInt8} {bytes : List UInt8} (hok : KeepsSpeed p (.put b))
    (hsettles : Settles w (p.buffer.contents ++ b :: bytes) c) :
    Settles w ((p.buffer.put b).contents ++ bytes) c := by
  cases hfull : p.buffer.full with
  | false =>
      rw [p.buffer.contents_put b hfull, List.append_assoc]
      exact hsettles
  | true =>
      have hne : p.buffer.empty = false := by simp [CircularBuffer.empty, hfull]
      have hcons := p.buffer.contents_cons hne
      rw [hcons] at hsettles
      rw [p.buffer.contents_put_full b hfull, hcons, List.append_assoc]
      rcases Settles.cons_iff hsettles with ⟨-, hsettles⟩ | ⟨hspeed, -⟩
      · exact hsettles
      · have htext := hok hfull
        rw [hspeed] at htext
        cases htext

theorem restores_perform [ExactBytes F] {p : Pace F} {e : Effect} {es : List Effect} (hok : KeepsSpeed p e)
    (hp : Restores p (e :: es)) : Restores (p.perform e) es := by
  generalize hes : e :: es = pending at hp
  cases hp with
  | text w c hspeed hset bytes hsettles =>
      cases bytes with
      | nil => cases hes
      | cons b bytes =>
          cases hes
          exact .text (p := p.perform (.put b)) w c hspeed hset bytes (settles_put hok hsettles)
  | command w c hspeed hset e' hput hsettles =>
      cases hes
      cases e with
      | put b => exact absurd rfl (hput b)
      | speed wpm =>
          have hsame := settles_from hsettles wpm
          have hlast : (lastInline p.buffer.contents).getD wpm = wpm := by
            cases hv : lastInline p.buffer.contents with
            | none => rfl
            | some v => exact hok v hv
          rw [hlast, ← List.append_nil p.buffer.contents] at hsame
          exact .text wpm wpm rfl rfl [] hsame
      | clear =>
          have hspeeds : p.speed = p.characterWpm := hok
          rw [hspeed, hset, ExactBytes.cast_inj] at hspeeds
          subst hspeeds
          have hempty : (p.perform .clear).buffer.contents = [] := CircularBuffer.contents_reset _
          refine .text (p := p.perform .clear) w w hspeed hset [] ?_
          rw [hempty]
          exact .nil

theorem Restores.settles {p : Pace F} (hp : Restores p []) :
    ∃ w c : UInt8, p.speed = (w.toNat : F) ∧ p.characterWpm = (c.toNat : F) ∧
      Settles w p.buffer.contents c := by
  generalize hes : [] = pending at hp
  cases hp with
  | text w c hspeed hset bytes hsettles =>
      rw [List.map_eq_nil_iff.mp hes.symm, List.append_nil] at hsettles
      exact ⟨w, c, hspeed, hset, hsettles⟩
  | command w c hspeed hset e hput hsettles => cases hes

theorem restores_receive [ExactBytes F] {char : CharType} {p : Pace F} {message : List UInt8} {es : List Effect}
    (ht : Translation char message (setSpeed p) es) (hp : Restores p []) : Restores p es := by
  obtain ⟨w, c, hspeed, hset, hsettles⟩ := hp.settles
  have hset' : setSpeed p = c := by
    rw [setSpeed, hset, ExactBytes.toUInt8_cast]
  cases ht with
  | text htext =>
      rw [hset']
      exact .text w c hspeed hset _ (hsettles.append (settles_textMessage char message c))
  | speed hesc v hv => exact .command w c hspeed hset (.speed v) (fun _ => nofun) hsettles
  | clear hesc hc => exact .command w c hspeed hset .clear (fun _ => nofun) hsettles
  | silent hesc =>
      rw [← List.append_nil p.buffer.contents] at hsettles
      exact .text w c hspeed hset [] hsettles

/-- Inline speed changes do not outlive their message. In every run in which no change is cut off
from the frame that takes it back, the keyer is at the set speed whenever everything has been fed
and the buffer is empty. -/
theorem inline_speed_restored [ExactBytes F] (char : CharType) (a : Readings) (initialWpm : UInt8)
    (acts : List Action) (s : Service F)
    (h : Run (step char) (Allowed KeepsSpeed fun _ _ => True) (start a initialWpm) acts s)
    (hfed : toFeed s.client = []) (hempty : s.keyer.winkeyerBuffer.empty = true) :
    s.keyer.winkeyerSpeedWpm = s.keyer.profile.style.characterWpm := by
  have hstart : Restores (pace (start a initialWpm : Service F).keyer) [] := by
    rw [pace_start]
    exact .text initialWpm initialWpm rfl rfl [] (by simp [Settles.nil])
  have hserving := serving_run Restores (fun p p' es hf hp => restores_fetch hf hp)
    (fun p e es hok hp => restores_perform hok hp) (fun p message es _ ht hp => restores_receive ht hp) hstart h
  have hinv := hserving.inv
  rw [todo, hfed] at hinv
  obtain ⟨w, c, hspeed, hset, hsettles⟩ := Restores.settles hinv
  have hnone : (pace s.keyer).buffer.contents = [] := (CircularBuffer.empty_iff_contents _).mp hempty
  rw [hnone] at hsettles
  cases hsettles
  exact hspeed.trans hset.symm

end

def tick (t : UInt32) : List Action := [.keyer fun _ => .at t, .keyer fun _ => .at t]

def raised : List Action := [quiet 0, datagram [0x2B, 0x2B] 0, quiet 0, quiet 0, quiet 0, quiet 0] ++ tick 1

theorem inline_speed_restored_after_raise :
    ∃ s, Run (step .signed) (Allowed KeepsSpeed fun _ _ => True) (start (.at 0) 24 : Service ℚ)
      (raised ++ tick 2) s ∧
      s.keyer.winkeyerSpeedWpm = s.keyer.profile.style.characterWpm := by
  obtain ⟨s, hrun, hview⟩ := run_of_exec_map (step .signed) (Allowed KeepsSpeed fun _ _ => True)
    (start (.at 0) 24 : Service ℚ) (raised ++ tick 2)
      (fun s => (toFeed s.client, s.keyer.winkeyerBuffer.empty)) ([], true)
    (by decide +kernel)
  obtain ⟨hfed, hempty⟩ := Prod.mk.inj hview
  exact ⟨s, hrun, inline_speed_restored .signed (.at 0) 24 _ s hrun hfed hempty⟩

/-- The abort comes between the change and the frame that takes it back: the keyer stays at 28 words
a minute. -/
theorem inline_speed_outlives_abort :
    ∃ s, Run (step .signed) (fun _ _ => True) (start (.at 0) 24 : Service ℚ)
        (raised ++ [quiet 2, quiet 2, quiet 2, datagram [27, 0x34] 2, quiet 2, quiet 2]) s ∧
      s.client = .polling ∧ s.keyer.winkeyerBuffer.empty = true ∧ s.keyer.playingBit = 0 ∧
      s.keyer.currentState = some .winkeyer ∧ s.keyer.winkeyerSpeedWpm = 28 ∧
      s.keyer.profile.style.characterWpm = 24 := by
  obtain ⟨s, hrun, hview⟩ := run_of_exec_map (step .signed) (fun _ _ => True) (start (.at 0) 24 : Service ℚ)
    (raised ++ [quiet 2, quiet 2, quiet 2, datagram [27, 0x34] 2, quiet 2, quiet 2])
    (fun s => ((s.client, s.keyer.winkeyerBuffer.empty, s.keyer.playingBit, s.keyer.currentState),
      s.keyer.winkeyerSpeedWpm, s.keyer.profile.style.characterWpm))
    ((.polling, true, 0, some .winkeyer), 28, 24)
    (by decide +kernel)
  simp only [Prod.mk.injEq] at hview
  obtain ⟨⟨hpc, hempty, hbit, hstate⟩, hspeed, hset⟩ := hview
  exact ⟨s, hrun, hpc, hempty, hbit, hstate, hspeed, hset⟩

end Cwsd.InlineSpeed

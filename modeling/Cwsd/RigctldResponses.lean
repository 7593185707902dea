import Cwsd.RigctldCommands
import Cwsd.SelfDelimiting

namespace Cwsd.RigctldResponses

open Stoi StringUtil RigctldServer RigctldSafety RigctldReplies RigctldCommands SelfDelimiting

theorem digitChar_toUInt8 {m n : Nat} (hm : m < 16) (hn : n < 16)
    (h : (Nat.digitChar m).toUInt8 = (Nat.digitChar n).toUInt8) : m = n := by
  have hall : ∀ m < 16, ∀ n < 16, (Nat.digitChar m).toUInt8 = (Nat.digitChar n).toUInt8 → m = n := by decide
  exact hall m hm n hn h

def hexDigits (n : Nat) : List UInt8 := (Nat.toDigits 16 n).map Char.toUInt8

theorem hexDigits_eq (n : Nat) :
    hexDigits n =
      if n < 16 then [(Nat.digitChar n).toUInt8] else hexDigits (n / 16) ++
      [(Nat.digitChar (n % 16)).toUInt8] := by
  split
  · rename_i h
    rw [hexDigits, Nat.toDigits_of_lt_base h]
    rfl
  · rename_i h
    rw [hexDigits, Nat.toDigits_of_base_le (by decide) (Nat.le_of_not_lt h), List.map_append, hexDigits]
    rfl

theorem hexDigits_ne_nil (n : Nat) : hexDigits n ≠ [] := mt List.map_eq_nil_iff.mp Nat.toDigits_ne_nil

theorem hexDigits_injective {m n : Nat} (h : hexDigits m = hexDigits n) : m = n := by
  induction m using Nat.strongRecOn generalizing n with
  | ind m ih =>
      rw [hexDigits_eq m, hexDigits_eq n] at h
      split at h <;> split at h
      · rename_i hm hn
        exact digitChar_toUInt8 hm hn (List.singleton_inj.mp h)
      · exact absurd (List.append_eq_singleton_iff.mp h.symm) (by simp [hexDigits_ne_nil])
      · exact absurd (List.append_eq_singleton_iff.mp h) (by simp [hexDigits_ne_nil])
      · rename_i hm hn
        obtain ⟨hinit, hlast⟩ := List.append_inj' h rfl
        have hdiv := ih (m / 16) (by omega) hinit
        have hmod := digitChar_toUInt8 (Nat.mod_lt m (by decide)) (Nat.mod_lt n (by decide))
          (List.singleton_inj.mp hlast)
        omega

theorem toHex_injective {m n : Nat} (h : toHex m = toHex n) : m = n :=
  hexDigits_injective (List.append_cancel_left h)

theorem solid_toHex (n : Nat) : Solid (toHex n) := by
  have hdigit : ∀ m < 16, solid [(Nat.digitChar m).toUInt8] = true := by decide
  have hdigits : ∀ c ∈ hexDigits n, isSpace c = false ∧ c ≠ 0 := by
    induction n using Nat.strongRecOn with
    | ind n ih =>
        have hlast {m : Nat} (hm : m < 16) : ∀ c ∈ [(Nat.digitChar m).toUInt8], isSpace c = false ∧ c ≠ 0 :=
          ((solid_iff _).mp (hdigit m hm)).2
        rw [hexDigits_eq]
        split
        · exact hlast ‹_›
        · rw [List.forall_mem_append]
          exact ⟨ih (n / 16) (by omega), hlast (Nat.mod_lt n (by decide))⟩
  have hmark : Solid (ascii "0x") := (solid_iff _).mp rfl
  exact ⟨List.append_ne_nil_of_left_ne_nil hmark.1 _, List.forall_mem_append.mpr ⟨hmark.2, hdigits⟩⟩

theorem toText_injective {i j : Int} (h : toText i = toText j) : i = j := by
  have hsign (k : Int) : '-'.toUInt8 ∈ toText k ↔ k < 0 := by
    have hnone : '-'.toUInt8 ∉ digitsOf k.natAbs := fun hmem => absurd (digitsOf_digits _ _ hmem) (by decide)
    rw [toText_eq, List.mem_append]
    split <;> simp [*]
  have hneg := (hsign i).symm.trans ((iff_of_eq (by rw [h])).trans (hsign j))
  rw [toText_eq, toText_eq, if_congr hneg rfl rfl] at h
  have hdigits := congrArg digitsValue (List.append_cancel_left h)
  rw [digitsValue_digitsOf, digitsValue_digitsOf] at hdigits
  omega

theorem delimits_word {c : UInt8} (hc : isSpace c = true) : Delimits Solid fun word => word ++ [c] :=
  delimits_mark c (fun _ _ _ _ h => h) fun _ hword => not_mem_of_solid hword (.inl hc)

theorem delimits_toText {c : UInt8} (hc : isSpace c = true) :
    Delimits (fun _ : Int => True) fun i => toText i ++ [c] :=
  delimits_mark c (fun _ _ _ _ h => toText_injective h) fun i _ => not_mem_of_solid (solid_toText i) (.inl hc)

theorem delimits_toHex {c : UInt8} (hc : isSpace c = true) :
    Delimits (fun _ : Nat => True) fun n => toHex n ++ [c] :=
  delimits_mark c (fun _ _ _ _ h => toHex_injective h) fun n _ => not_mem_of_solid (solid_toHex n) (.inl hc)

/-- A range of frequencies as a client reads it. -/
structure SeenRange where
  startf : List UInt8
  endf : List UInt8
  modes : Nat
  lowPower : Int
  highPower : Int
  vfo : Nat
  ant : Nat

/-- What dump_state tells of the rig: frequencies as texts, and the lists of decibels up to a zero. -/
@[ext]
structure Seen where
  rigModel : Int
  rxRangeList : List SeenRange
  txRangeList : List SeenRange
  tuningSteps : List (Nat × Int)
  filters : List (Nat × Int)
  maxRit : Int
  maxXit : Int
  maxIfshift : Int
  announces : Int
  preamp : List Int
  attenuator : List Int
  hasGetFunc : Nat
  hasSetFunc : Nat
  hasGetLevel : Nat
  hasSetLevel : Nat
  hasGetParm : Nat
  hasSetParm : Nat

def seenRange (env : Environment) (r : FreqRange) : SeenRange :=
  ⟨env.doubleToString r.startf, env.doubleToString r.endf, r.modes, r.lowPower, r.highPower, r.vfo, r.ant⟩

def seen (env : Environment) (rs : RigState) : Seen :=
  { rs with
    rxRangeList := rs.rxRangeList.map (seenRange env)
    txRangeList := rs.txRangeList.map (seenRange env)
    preamp := rs.preamp.takeWhile (· ≠ 0)
    attenuator := rs.attenuator.takeWhile (· ≠ 0) }

def rangeText (r : SeenRange) : List UInt8 :=
  r.startf ++ [' '.toUInt8] ++ (r.endf ++ [' '.toUInt8] ++ (toHex r.modes ++ [' '.toUInt8] ++
    (toText r.lowPower ++ [' '.toUInt8] ++ (toText r.highPower ++ [' '.toUInt8] ++
      (toHex r.vfo ++ [' '.toUInt8] ++ (toHex r.ant ++ ['\n'.toUInt8]))))))

theorem dumpRange_eq (env : Environment) (r : FreqRange) : dumpRange env r = rangeText (seenRange env r) := by
  have hblank : ascii " " = [' '.toUInt8] := rfl
  have hline : ascii "\n" = ['\n'.toUInt8] := rfl
  simp only [dumpRange, rangeText, seenRange, hblank, hline, List.append_assoc]

theorem toHex_ne_zero (n : Nat) : toHex n ≠ ascii "0" := by
  intro h
  have hlen := congrArg List.length h
  rw [toHex, List.length_append] at hlen
  have htwo : (ascii "0x").length = 2 := rfl
  have hone : (ascii "0").length = 1 := rfl
  omega

theorem delimits_rangeText : Delimits (fun r : SeenRange => Solid r.startf ∧ Solid r.endf) rangeText := by
  intro r r' rest rest' hr hr' h
  simp only [rangeText, List.append_assoc (_ ++ [' '.toUInt8])] at h
  obtain ⟨hstart, h₁⟩ := delimits_word rfl hr.1 hr'.1 h
  obtain ⟨hend, h₂⟩ := delimits_word rfl hr.2 hr'.2 h₁
  obtain ⟨hmodes, h₃⟩ := delimits_toHex rfl trivial trivial h₂
  obtain ⟨hlow, h₄⟩ := delimits_toText rfl trivial trivial h₃
  obtain ⟨hhigh, h₅⟩ := delimits_toText rfl trivial trivial h₄
  obtain ⟨hvfo, h₆⟩ := delimits_toHex rfl trivial trivial h₅
  obtain ⟨hant, h₇⟩ := delimits_toHex rfl trivial trivial h₆
  cases r
  cases r'
  exact ⟨by simp_all, h₇⟩

theorem rangeText_not_end {r : SeenRange} (hr : Solid r.startf ∧ Solid r.endf) (rest rest' : List UInt8) :
    rangeText r ++ rest ≠ ascii "0 0 0 0 0 0 0\n" ++ rest' := by
  intro h
  have hzero : Solid (ascii "0") := (solid_iff _).mp rfl
  have hend : ascii "0 0 0 0 0 0 0\n" = ascii "0" ++ [' '.toUInt8] ++ (ascii "0" ++ [' '.toUInt8] ++
      (ascii "0" ++ [' '.toUInt8] ++ ascii "0 0 0 0\n")) := rfl
  simp only [rangeText, hend, List.append_assoc (_ ++ [' '.toUInt8])] at h
  obtain ⟨-, h₁⟩ := delimits_word rfl hr.1 hzero h
  obtain ⟨-, h₂⟩ := delimits_word rfl hr.2 hzero h₁
  -- a bit mask is written with its radix, which the end mark does not have
  exact toHex_ne_zero r.modes (delimits_word rfl (solid_toHex r.modes) hzero h₂).1

def pairText (p : Nat × Int) : List UInt8 := toHex p.1 ++ [' '.toUInt8] ++ (toText p.2 ++ ['\n'.toUInt8])

theorem delimits_pairText : Delimits (fun _ : Nat × Int => True) pairText := by
  intro p p' rest rest' _ _ h
  simp only [pairText, List.append_assoc (_ ++ [' '.toUInt8])] at h
  obtain ⟨hfirst, h₁⟩ := delimits_toHex rfl trivial trivial h
  obtain ⟨hsecond, h₂⟩ := delimits_toText rfl trivial trivial h₁
  exact ⟨Prod.ext hfirst hsecond, h₂⟩

theorem pairText_not_end (p : Nat × Int) (rest rest' : List UInt8) :
    pairText p ++ rest ≠ ascii "0 0\n" ++ rest' := by
  intro h
  have hzero : Solid (ascii "0") := (solid_iff _).mp rfl
  have hend : ascii "0 0\n" = ascii "0" ++ [' '.toUInt8] ++ ascii "0\n" := rfl
  simp only [pairText, hend, List.append_assoc (_ ++ [' '.toUInt8])] at h
  exact toHex_ne_zero p.1 (delimits_word rfl (solid_toHex p.1) hzero h).1

theorem delimits_ranges : Delimits (fun l : List SeenRange => ∀ r ∈ l, Solid r.startf ∧ Solid r.endf)
    fun l => l.flatMap rangeText ++ ascii "0 0 0 0 0 0 0\n" :=
  delimits_rangeText.until fun _ rest rest' hr => rangeText_not_end hr rest rest'

theorem delimits_pairs : Delimits (fun l : List (Nat × Int) => ∀ p ∈ l, True)
    fun l => l.flatMap pairText ++ ascii "0 0\n" :=
  delimits_pairText.until fun p rest rest' _ => pairText_not_end p rest rest'

theorem delimits_db : Delimits (fun l : List Int => ∀ i ∈ l, True)
    fun l => l.flatMap (fun i => toText i ++ [' '.toUInt8]) ++ ['\n'.toUInt8] := by
  refine (delimits_toText rfl).until fun i rest rest' _ h => ?_
  obtain ⟨c, text, htext⟩ := List.exists_cons_of_ne_nil (solid_toText i).1
  have hc := ((solid_toText i).2 c (htext ▸ List.mem_cons_self)).1
  rw [htext] at h
  rw [List.head_eq_of_cons_eq h] at hc
  exact absurd hc (by decide)

def seenText (s : Seen) (rest : List UInt8) : List UInt8 :=
  ascii "0\n" ++ (toText s.rigModel ++ ['\n'.toUInt8] ++ (ascii "0\n" ++
    (s.rxRangeList.flatMap rangeText ++ ascii "0 0 0 0 0 0 0\n" ++
    (s.txRangeList.flatMap rangeText ++ ascii "0 0 0 0 0 0 0\n" ++
    (s.tuningSteps.flatMap pairText ++ ascii "0 0\n" ++ (s.filters.flatMap pairText ++ ascii "0 0\n" ++
    (toText s.maxRit ++ ['\n'.toUInt8] ++ (toText s.maxXit ++ ['\n'.toUInt8] ++
    (toText s.maxIfshift ++ ['\n'.toUInt8] ++ (toText s.announces ++ ['\n'.toUInt8] ++
    (s.preamp.flatMap (fun i => toText i ++ [' '.toUInt8]) ++ ['\n'.toUInt8] ++
    (s.attenuator.flatMap (fun i => toText i ++ [' '.toUInt8]) ++ ['\n'.toUInt8] ++
    (toHex s.hasGetFunc ++ ['\n'.toUInt8] ++ (toHex s.hasSetFunc ++ ['\n'.toUInt8] ++
    (toHex s.hasGetLevel ++ ['\n'.toUInt8] ++ (toHex s.hasSetLevel ++ ['\n'.toUInt8] ++
    (toHex s.hasGetParm ++ ['\n'.toUInt8] ++ (toHex s.hasSetParm ++ ['\n'.toUInt8] ++ rest))))))))))))))))))

theorem dumpState_seen (env : Environment) (rs : RigState) (rest : List UInt8) :
    dumpState env rs ++ rest = seenText (seen env rs) rest := by
  have hblank : ascii " " = [' '.toUInt8] := rfl
  have hline : ascii "\n" = ['\n'.toUInt8] := rfl
  have hpair : dumpPair = pairText := by
    funext p
    simp only [dumpPair, pairText, hblank, hline, List.append_assoc]
  have hrange : dumpRange env = fun r => rangeText (seenRange env r) := funext (dumpRange_eq env)
  unfold dumpState
  simp only [seenText, seen, dumpDb, hpair, hrange, hblank, hline, List.flatMap_map, List.flatMap_cons,
    List.flatMap_nil, List.append_nil, List.append_assoc]

theorem dump_unambiguous {env env' : Environment} (henv : ∀ freq, Solid (env.doubleToString freq))
    (henv' : ∀ freq, Solid (env'.doubleToString freq)) {rs rs' : RigState} {rest rest' : List UInt8}
    (h : dumpState env rs ++ rest = dumpState env' rs' ++ rest') :
    seen env rs = seen env' rs' ∧ rest = rest' := by
  have hsolid {env : Environment} (henv : ∀ freq, Solid (env.doubleToString freq)) (ranges : List FreqRange) :
      ∀ r ∈ ranges.map (seenRange env), Solid r.startf ∧ Solid r.endf := by
    intro r hr
    obtain ⟨range, -, rfl⟩ := List.mem_map.mp hr
    exact ⟨henv _, henv _⟩
  rw [dumpState_seen, dumpState_seen, seenText, seenText] at h
  obtain ⟨hmodel, h⟩ := delimits_toText rfl trivial trivial (List.append_cancel_left h)
  obtain ⟨hrx, h⟩ := delimits_ranges (hsolid henv _) (hsolid henv' _) (List.append_cancel_left h)
  obtain ⟨htx, h⟩ := delimits_ranges (hsolid henv _) (hsolid henv' _) h
  obtain ⟨hsteps, h⟩ := delimits_pairs (fun _ _ => trivial) (fun _ _ => trivial) h
  obtain ⟨hfilters, h⟩ := delimits_pairs (fun _ _ => trivial) (fun _ _ => trivial) h
  obtain ⟨hrit, h⟩ := delimits_toText rfl trivial trivial h
  obtain ⟨hxit, h⟩ := delimits_toText rfl trivial trivial h
  obtain ⟨hshift, h⟩ := delimits_toText rfl trivial trivial h
  obtain ⟨hannounces, h⟩ := delimits_toText rfl trivial trivial h
  obtain ⟨hpreamp, h⟩ := delimits_db (fun _ _ => trivial) (fun _ _ => trivial) h
  obtain ⟨hattenuator, h⟩ := delimits_db (fun _ _ => trivial) (fun _ _ => trivial) h
  obtain ⟨hgetFunc, h⟩ := delimits_toHex rfl trivial trivial h
  obtain ⟨hsetFunc, h⟩ := delimits_toHex rfl trivial trivial h
  obtain ⟨hgetLevel, h⟩ := delimits_toHex rfl trivial trivial h
  obtain ⟨hsetLevel, h⟩ := delimits_toHex rfl trivial trivial h
  obtain ⟨hgetParm, h⟩ := delimits_toHex rfl trivial trivial h
  obtain ⟨hsetParm, h⟩ := delimits_toHex rfl trivial trivial h
  exact ⟨Seen.ext hmodel hrx htx hsteps hfilters hrit hxit hshift hannounces hpreamp hattenuator hgetFunc
    hsetFunc
    hgetLevel hsetLevel hgetParm hsetParm, h⟩

/-- The dump of a rig tells where it ends, whatever follows it, and it tells all that there is to see of the
rig and nothing else. -/
theorem dump_tells_rig (env env' : Environment) (henv : ∀ freq, Solid (env.doubleToString freq))
    (henv' : ∀ freq, Solid (env'.doubleToString freq)) (rs rs' : RigState) (rest rest' : List UInt8) :
    dumpState env rs ++ rest = dumpState env' rs' ++ rest' ↔ seen env rs = seen env' rs' ∧ rest = rest' := by
  constructor
  · exact dump_unambiguous henv henv'
  · rintro ⟨hseen, rfl⟩
    rw [dumpState_seen, dumpState_seen, hseen]

def smallRig (hidden : Int) : RigState :=
  ⟨modelIC7300, [⟨30000, 74800000, 0xFF, -1, -1, 1, 1⟩], [], [(0xFF, 10)], [(0x82, 2400)], 9999, 0, 0, 0,
    [12, 0, hidden], [20], 0, 0, 0x8000000, 0, 0, 0⟩

theorem idleRig_freq (freq : UInt64) : Solid (idleRig.doubleToString freq) := (solid_iff _).mp rfl

theorem hidden_preamp_not_told :
    dumpState idleRig (smallRig 5) ++ ascii "7\n" = dumpState idleRig (smallRig 6) ++ ascii "7\n" :=
  (dump_tells_rig idleRig idleRig idleRig_freq idleRig_freq (smallRig 5) (smallRig 6) (ascii "7\n")
    (ascii "7\n")).mpr
    ⟨rfl, rfl⟩

/-- What a client relies on for the numbers that others put into words: texts without blanks, and one of the
states of power that hamlib knows. -/
structure Clean (env : Environment) : Prop where
  freq : ∀ freq, Solid (env.doubleToString freq)
  level : ∀ val, Solid (env.floatToString val)
  powerstat : ∀ calls, 0 ≤ env.powerstat calls ∧ env.powerstat calls ≤ 9

/-- The responses that a command can get. -/
def Possible (cmd : Command) (responses : List (List UInt8)) : Prop :=
  ∃ env model calls, Clean env ∧ responses = cmd.responses env model calls

theorem delimits_line :
    Delimits (fun line : List UInt8 => '\n'.toUInt8 ∉ line) fun line => line ++ ['\n'.toUInt8] :=
  delimits_mark _ (fun _ _ _ _ h => h) fun _ h => h

theorem delimits_one :
    Delimits (fun responses : List (List UInt8) => ∃ line, '\n'.toUInt8 ∉ line ∧ responses = [line])
      responseText := by
  rintro _ _ rest rest' ⟨a, ha, rfl⟩ ⟨b, hb, rfl⟩ h
  rw [responseText, responseText, List.flatMap_singleton, List.flatMap_singleton] at h
  obtain ⟨rfl, hrest⟩ := delimits_line ha hb h
  exact ⟨rfl, hrest⟩

theorem delimits_two :
    Delimits (fun responses : List (List UInt8) => ∃ first second, '\n'.toUInt8 ∉ first ∧
      '\n'.toUInt8 ∉ second ∧
      responses = [first ++ ascii "\n" ++ second]) responseText := by
  rintro _ _ rest rest' ⟨a, b, ha, hb, rfl⟩ ⟨a', b', ha', hb', rfl⟩ h
  have htext (a b rest : List UInt8) : responseText [a ++ ascii "\n" ++ b] ++ rest =
      a ++ ['\n'.toUInt8] ++ (b ++ ['\n'.toUInt8] ++ rest) := by
    rw [responseText, List.flatMap_singleton, List.append_assoc (a ++ ascii "\n"),
      List.append_assoc (a ++ ascii "\n")]
    rfl
  rw [htext, htext] at h
  obtain ⟨rfl, hnext⟩ := delimits_line ha ha' h
  obtain ⟨rfl, hrest⟩ := delimits_line hb hb' hnext
  exact ⟨rfl, hrest⟩

theorem delimits_lock :
    Delimits (fun responses : List (List UInt8) => ∃ line, '\n'.toUInt8 ∉ line ∧ responses = [line, []])
      responseText := by
  rintro _ _ rest rest' ⟨a, ha, rfl⟩ ⟨b, hb, rfl⟩ h
  have htext (a rest : List UInt8) : responseText [a, []] ++ rest = a ++ ['\n'.toUInt8] ++
    (ascii "\n" ++ rest) := by
    rw [responseText, List.flatMap_cons, List.flatMap_singleton, List.nil_append,
      List.append_assoc (a ++ ascii "\n")]
    rfl
  rw [htext, htext] at h
  obtain ⟨rfl, hnext⟩ := delimits_line ha hb h
  exact ⟨rfl, List.append_cancel_left hnext⟩

theorem delimits_dump :
    Delimits (fun responses : List (List UInt8) => ∃ env rs, Clean env ∧ responses = [dumpState env rs])
      responseText := by
  rintro _ _ rest rest' ⟨env, rs, henv, rfl⟩ ⟨env', rs', henv', rfl⟩ h
  rw [responseText, responseText, List.flatMap_singleton, List.flatMap_singleton] at h
  rw [List.append_assoc, List.append_assoc] at h
  have hrest := (dump_unambiguous henv.freq henv'.freq h).2
  rw [hrest] at h
  exact ⟨congrArg (fun text => [text]) (List.append_cancel_right h), List.append_cancel_left hrest⟩

theorem line_of_solid {text : List UInt8} (h : Solid text) : '\n'.toUInt8 ∉ text :=
    not_mem_of_solid h (.inl rfl)

theorem line_append {first second : List UInt8} (h : '\n'.toUInt8 ∉ first) (h' : '\n'.toUInt8 ∉ second) :
    '\n'.toUInt8 ∉ first ++ second := by
  rw [List.mem_append]
  exact not_or.mpr ⟨h, h'⟩

theorem line_toClient {status : Int} (h : 0 ≤ status ∧ status ≤ 9) : '\n'.toUInt8 ∉ toClient status := by
  obtain ⟨n, rfl⟩ := Int.eq_ofNat_of_zero_le h.1
  have hall : ∀ n ≤ 9, '\n'.toUInt8 ∉ toClient (Int.ofNat n) := by decide
  exact hall n (Int.ofNat_le.mp h.2)

theorem line_code (rc : Int) : '\n'.toUInt8 ∉ ascii "RPRT " ++ toText rc :=
  line_append (by decide) (line_of_solid (solid_toText rc))

/-- The responses to a command tell where they end. -/
theorem delimits_possible (cmd : Command) : Delimits (Possible cmd) responseText := by
  have hone (h : ∀ env model calls, Clean env → ∃ line, '\n'.toUInt8 ∉ line ∧
    cmd.responses env model calls = [line]) :
      Delimits (Possible cmd) responseText := by
    refine delimits_one.mono ?_
    rintro _ ⟨env, model, calls, henv, rfl⟩
    exact h env model calls henv
  have hnumber (i : Int) : '\n'.toUInt8 ∉ toText i := line_of_solid (solid_toText i)
  cases cmd with
  | getPowerstat => exact hone fun env _ calls henv => ⟨_, line_toClient (henv.powerstat calls), rfl⟩
  | chkVfo | getVfo | setPowerstat | setSplitVfo | setPtt | setVfo | setMode =>
      exact hone fun _ _ _ _ => ⟨_, by decide, rfl⟩
  | getPtt => exact hone fun env _ calls _ => ⟨_, hnumber (env.ptt calls), rfl⟩
  | getRit => exact hone fun env _ calls _ => ⟨_, hnumber (env.rit calls), rfl⟩
  | getFreq => exact hone fun env _ calls henv => ⟨_, line_of_solid (henv.freq (env.freq calls)), rfl⟩
  | setFreq freq =>
      refine hone fun env _ _ _ => ⟨_, ?_, rfl⟩
      split <;> decide
  | getLevel name =>
      refine hone fun env _ calls henv => ⟨_, ?_, rfl⟩
      split
      · exact line_code _
      · split
        · exact line_of_solid (henv.level _)
        · exact hnumber _
  | setLevel name value =>
      refine hone fun env _ _ _ => ⟨_, ?_, rfl⟩
      split
      · exact line_code _
      · decide
  | getLockMode =>
      refine delimits_lock.mono ?_
      rintro _ ⟨env, model, calls, henv, rfl⟩
      exact ⟨_, hnumber (env.lockMode calls), rfl⟩
  | getSplitVfo =>
      refine delimits_two.mono ?_
      rintro _ ⟨env, model, calls, henv, rfl⟩
      exact ⟨_, _, line_of_solid (solid_splitToString _), line_of_solid (solid_vfoToString _), rfl⟩
  | getMode =>
      refine delimits_two.mono ?_
      rintro _ ⟨env, model, calls, henv, rfl⟩
      exact ⟨_, _, line_of_solid (solid_modeToString _), hnumber _, rfl⟩
  | dumpState =>
      refine delimits_dump.mono ?_
      rintro _ ⟨env, model, calls, henv, rfl⟩
      exact ⟨env, env.state calls, henv, rfl⟩

/-- A client that knows which commands it has given cuts the stream of the responses in one way only, and so
never takes a response for that of another command. -/
theorem responses_cut_one_way (cmds : List Command) (responses responses' : List (List (List UInt8)))
    (rest rest' : List UInt8) (h : List.Forall₂ Possible cmds responses)
    (h' : List.Forall₂ Possible cmds responses')
    (heq : responses.flatMap responseText ++ rest = responses'.flatMap responseText ++ rest') :
    responses = responses' ∧ rest = rest' :=
  delimits_sequence delimits_possible cmds h h' heq

theorem idleRig_clean : Clean idleRig :=
  ⟨idleRig_freq, fun _ => (solid_iff _).mp rfl, fun _ => ⟨Int.le_refl 0, Int.zero_le_ofNat 9⟩⟩

/-- The rig answers as before, after a call. -/
theorem lockAndDump_cut :
    [.getLockMode, .dumpState].map (Command.responses idleRig 0 []) =
      [.getLockMode, .dumpState].map (Command.responses idleRig 0 [.getPowerstat]) ∧
      ascii "1\n" = ascii "1\n" := by
  have hpossible (calls : List Call) : List.Forall₂ Possible [.getLockMode, .dumpState]
      ([.getLockMode, .dumpState].map (Command.responses idleRig 0 calls)) :=
    .cons ⟨idleRig, 0, calls, idleRig_clean, rfl⟩ (.cons ⟨idleRig, 0, calls, idleRig_clean, rfl⟩ .nil)
  exact responses_cut_one_way [.getLockMode, .dumpState] _ _ (ascii "1\n") (ascii "1\n") (hpossible [])
    (hpossible [.getPowerstat]) rfl

end Cwsd.RigctldResponses

import Mathlib.Data.List.Basic

namespace Cwsd.Framing

variable {β : Type} {arity : β → Nat}

/-- A frame is a head symbol with as many arguments as its arity asks for. -/
structure Frame (arity : β → Nat) where
  head : β
  args : List β
  complete : args.length = arity head
  deriving DecidableEq

def Frame.symbols (f : Frame arity) : List β := f.head :: f.args

/-- A first-in first-out queue of complete frames, followed by the beginning of
one more. A frame that has all its arguments never stays in the second part. -/
structure Queue (arity : β → Nat) where
  pending : List (Frame arity)
  started : List β
  short : ∀ c args, started = c :: args → args.length < arity c

namespace Queue

def nil : Queue arity := ⟨[], [], by simp⟩

def symbols (q : Queue arity) : List β := q.pending.flatMap Frame.symbols ++ q.started

def missing (q : Queue arity) : Nat :=
  match q.started with
  | [] => 0
  | c :: args => arity c - args.length

def close (fs : List (Frame arity)) (c : β) (args : List β) (hle : args.length ≤ arity c) : Queue arity :=
  if h : args.length = arity c then ⟨fs ++ [⟨c, args, h⟩], [], by simp⟩
  else ⟨fs, c :: args, by
    intro d ds he
    cases he
    omega⟩

def put (q : Queue arity) (b : β) : Queue arity :=
  match hs : q.started with
  | [] => close q.pending b [] (Nat.zero_le _)
  | c :: args => close q.pending c (args ++ [b]) (by
      have h := q.short c args hs
      simp only [List.length_append, List.length_singleton]
      omega)

theorem put_of_nil {q : Queue arity} (hs : q.started = []) (b : β) :
    q.put b = close q.pending b [] (Nat.zero_le _) := by
  unfold put
  split
  · rfl
  · rename_i c args hcons
    rw [hs] at hcons
    cases hcons

theorem put_of_cons {q : Queue arity} {c : β} {args : List β} (hs : q.started = c :: args) (b : β)
    (hle : (args ++ [b]).length ≤ arity c) : q.put b = close q.pending c (args ++ [b]) hle := by
  unfold put
  split
  · rename_i hnil
    rw [hs] at hnil
    cases hnil
  · rename_i d ds hcons
    rw [hs] at hcons
    cases hcons
    rfl

theorem symbols_close (fs : List (Frame arity)) (c : β) (args : List β) (hle : args.length ≤ arity c) :
    (close fs c args hle).symbols = fs.flatMap Frame.symbols ++ c :: args := by
  unfold close
  split <;> simp [symbols, Frame.symbols]

theorem missing_close (fs : List (Frame arity)) (c : β) (args : List β) (hle : args.length ≤ arity c) :
    (close fs c args hle).missing = arity c - args.length := by
  unfold close
  split
  · simp only [missing]
    omega
  · rfl

theorem symbols_put (q : Queue arity) (b : β) : (q.put b).symbols = q.symbols ++ [b] := by
  unfold put
  split
  · rename_i hs
    rw [symbols_close]
    simp [symbols, hs]
  · rename_i c args hs
    rw [symbols_close]
    simp [symbols, hs]

theorem missing_pos {q : Queue arity} {c : β} {args : List β} (hs : q.started = c :: args) :
    0 < q.missing := by
  have h := q.short c args hs
  simp only [missing, hs]
  omega

theorem missing_put_zero {q : Queue arity} (h : q.missing = 0) (b : β) :
    (q.put b).missing = arity b := by
  unfold put
  split
  · rw [missing_close]
    rfl
  · rename_i c args hs
    exact absurd h (Nat.pos_iff_ne_zero.mp (missing_pos hs))

theorem missing_put_pos {q : Queue arity} (h : q.missing ≠ 0) (b : β) :
    (q.put b).missing = q.missing - 1 := by
  unfold put
  split
  · rename_i hs
    simp [missing, hs] at h
  · rename_i c args hs
    rw [missing_close]
    simp only [missing, hs, List.length_append, List.length_singleton]
    omega

def Heads (p : β → Prop) (q : Queue arity) : Prop :=
  (∀ f ∈ q.pending, p f.head) ∧ ∀ c args, q.started = c :: args → p c

theorem heads_nil (p : β → Prop) : (nil : Queue arity).Heads p := by simp [Heads, nil]

theorem heads_close {p : β → Prop} {fs : List (Frame arity)} (hfs : ∀ f ∈ fs, p f.head)
    {c : β} (hc : p c) (args : List β) (hle : args.length ≤ arity c) :
    (close fs c args hle).Heads p := by
  unfold close
  split
  · refine ⟨?_, by simp⟩
    intro f hf
    rcases List.mem_append.mp hf with hf | hf
    · exact hfs f hf
    · rw [List.mem_singleton.mp hf]
      exact hc
  · refine ⟨hfs, ?_⟩
    intro d ds he
    cases he
    exact hc

theorem heads_put {p : β → Prop} {q : Queue arity} (h : q.Heads p) {b : β}
    (hb : q.missing = 0 → p b) : (q.put b).Heads p := by
  unfold put
  split
  · rename_i hs
    exact heads_close h.1 (hb (by simp [missing, hs])) [] _
  · rename_i c args hs
    exact heads_close h.1 (h.2 c args hs) (args ++ [b]) _

/-- A symbol string that is long enough for its first frame starts with the
oldest pending frame; one that is too short is only the open frame. -/
theorem front_complete {q : Queue arity} {c : β} {rest : List β} (hq : q.symbols = c :: rest)
    (hlen : arity c ≤ rest.length) :
    ∃ f fs, q.pending = f :: fs ∧ f.head = c ∧ f.args = rest.take (arity c) ∧
      fs.flatMap Frame.symbols ++ q.started = rest.drop (arity c) := by
  cases hp : q.pending with
  | nil =>
      simp only [symbols, hp, List.flatMap_nil, List.nil_append] at hq
      exact absurd hlen (Nat.not_le.mpr (q.short c rest hq))
  | cons f fs =>
      simp only [symbols, hp, List.flatMap_cons, Frame.symbols, List.cons_append,
        List.append_assoc, List.cons.injEq] at hq
      obtain ⟨rfl, rfl⟩ := hq
      refine ⟨f, fs, rfl, rfl, ?_, ?_⟩
      · rw [← f.complete, List.take_left]
      · rw [← f.complete, List.drop_left]

end Queue

/-- What a user of the queue may observe: a symbol goes in, the oldest frame comes
out with all its arguments, or everything complete is dropped between frames. -/
inductive Op (β : Type)
  | put (b : β)
  | take (c : β) (args : List β)
  | clear
  deriving DecidableEq

namespace Queue

variable [DecidableEq β]

def apply (q : Queue arity) : Op β → Option (Queue arity)
  | .put b => some (q.put b)
  | .take c args =>
      match q.pending with
      | [] => none
      | f :: fs => if f.head = c ∧ f.args = args then some ⟨fs, q.started, q.short⟩ else none
  | .clear => if q.missing = 0 then some nil else none

theorem apply_take {q : Queue arity} {f : Frame arity} {fs : List (Frame arity)}
    (hp : q.pending = f :: fs) :
    q.apply (.take f.head f.args) = some ⟨fs, q.started, q.short⟩ := by
  simp [apply, hp]

def replay : List (Op β) → Option (Queue arity)
  | [] => some nil
  | op :: log => (replay log).bind fun q => q.apply op

end Queue

def puts (log : List (Op β)) : List β :=
  (log.filterMap fun | .put b => some b | _ => none).reverse

def takes (log : List (Op β)) : List β :=
  (log.filterMap fun | .take c _ => some c | _ => none).reverse

/-- The symbols that are left after a log: each one put in stays until it is the oldest and is
taken, or a clear removes it. None when the log takes anything else. -/
def flow [DecidableEq β] : List (Op β) → Option (List β)
  | [] => some []
  | .put b :: log => (flow log).map fun symbols => symbols ++ [b]
  | .take c args :: log => (flow log).bind (c :: args).isPrefixOf?
  | .clear :: log => (flow log).map fun _ => []

theorem flow_take [DecidableEq β] {log : List (Op β)} {c : β} {args rest : List β}
    (h : flow log = some (c :: args ++ rest)) :
    flow (.take c args :: log) = some rest := by
  rw [flow, h, Option.bind_some, List.isPrefixOf?_eq_some_iff_append_eq]

namespace Queue

def ofSymbols (l : List β) : Queue arity := l.foldl put nil

theorem symbols_ofSymbols (l : List β) : (ofSymbols l : Queue arity).symbols = l := by
  have hfold (q : Queue arity) : (l.foldl put q).symbols = q.symbols ++ l := by
    induction l generalizing q with
    | nil => exact (List.append_nil _).symm
    | cons b l ih => rw [List.foldl_cons, ih, symbols_put, List.append_assoc, List.singleton_append]
  exact hfold nil

theorem close_prepend (pre fs : List (Frame arity)) (c : β) (args : List β) (hle : args.length ≤ arity c) :
    close (pre ++ fs) c args hle =
      ⟨pre ++ (close fs c args hle).pending, (close fs c args hle).started, (close fs c args hle).short⟩ := by
  by_cases h : args.length = arity c <;> simp [close, h]

theorem put_prepend (pre : List (Frame arity)) (q : Queue arity) (b : β) :
    put ⟨pre ++ q.pending, q.started, q.short⟩ b =
      ⟨pre ++ (q.put b).pending, (q.put b).started, (q.put b).short⟩ := by
  obtain ⟨fs, started, short⟩ := q
  cases started with
  | nil => exact close_prepend pre fs b [] (Nat.zero_le _)
  | cons c args =>
      have hle : (args ++ [b]).length ≤ arity c := by
        have h := short c args rfl
        simp only [List.length_append, List.length_singleton]
        omega
      exact close_prepend pre fs c (args ++ [b]) hle

theorem foldl_put_prepend (pre : List (Frame arity)) (q : Queue arity) (l : List β) :
    l.foldl put ⟨pre ++ q.pending, q.started, q.short⟩ =
      ⟨pre ++ (l.foldl put q).pending, (l.foldl put q).started, (l.foldl put q).short⟩ := by
  induction l generalizing q with
  | nil => rfl
  | cons b l ih =>
      rw [List.foldl_cons, put_prepend]
      exact ih (q.put b)

theorem ofSymbols_append (l more : List β) : (ofSymbols (l ++ more) : Queue arity) = more.foldl put (ofSymbols l) :=
  List.foldl_append

/-- Without a clear, the frames put in are those taken out and then those pending. -/
theorem ofSymbols_puts [DecidableEq β] {log : List (Op β)} (hclear : .clear ∉ log) {q : Queue arity}
    (hq : replay log = some q) :
    ∃ pre, pre.map Frame.head = takes log ∧
      ofSymbols (puts log) = (⟨pre ++ q.pending, q.started, q.short⟩ : Queue arity) := by
  induction log generalizing q with
  | nil =>
      cases hq
      exact ⟨[], rfl, rfl⟩
  | cons op log ih =>
      simp only [List.mem_cons, not_or] at hclear
      obtain ⟨q₀, hq₀, hop⟩ := Option.bind_eq_some_iff.mp hq
      obtain ⟨pre, hpre, hof⟩ := ih hclear.2 hq₀
      cases op with
      | put b =>
          cases hop
          refine ⟨pre, by simpa [takes] using hpre, ?_⟩
          have hsnoc : ofSymbols (puts (.put b :: log)) = (ofSymbols (puts log) : Queue arity).put b := by
            simp [ofSymbols, puts]
          rw [hsnoc, hof]
          exact put_prepend pre q₀ b
      | take c args =>
          simp only [apply] at hop
          split at hop
          · cases hop
          · rename_i f fs hp
            split at hop
            · rename_i hf
              cases hop
              refine ⟨pre ++ [f], by simpa [takes, hf.1] using hpre, ?_⟩
              simpa [puts, hp] using hof
            · cases hop
      | clear => exact absurd rfl hclear.1

theorem put_close {fs : List (Frame arity)} {c : β} {args : List β} (hlt : args.length < arity c) (b : β) :
    (close fs c args (Nat.le_of_lt hlt)).put b =
      close fs c (args ++ [b]) (by rw [List.length_append]; exact hlt) := by
  have hstarted : close fs c args (Nat.le_of_lt hlt) = ⟨fs, c :: args, by
      intro d ds he
      cases he
      exact hlt⟩ := dif_neg (Nat.ne_of_lt hlt)
  rw [hstarted]
  rfl

theorem foldl_put_close {fs : List (Frame arity)} {c : β} (args rest : List β)
    (hle : (args ++ rest).length ≤ arity c) :
    rest.foldl put (close fs c args (by simp only [List.length_append] at hle; omega)) =
      close fs c (args ++ rest) hle := by
  induction rest generalizing args with
  | nil => simp
  | cons b rest ih =>
      have hlt : args.length < arity c := by
        simp only [List.length_append, List.length_cons] at hle
        omega
      have hsplit : args ++ b :: rest = args ++ [b] ++ rest := by simp
      rw [List.foldl_cons, put_close hlt, ih (args ++ [b]) (by simpa [← hsplit] using hle)]
      simp only [hsplit]

theorem foldl_put_frame (fs : List (Frame arity)) (f : Frame arity) :
    f.symbols.foldl put ⟨fs, [], by simp⟩ = ⟨fs ++ [f], [], by simp⟩ := by
  have hclose : close fs f.head f.args (Nat.le_of_eq f.complete) = ⟨fs ++ [f], [], by simp⟩ := dif_pos f.complete
  rw [← hclose]
  exact foldl_put_close [] f.args (Nat.le_of_eq f.complete)

theorem ofSymbols_frames (fs : List (Frame arity)) :
    ofSymbols (fs.flatMap Frame.symbols) = ⟨fs, [], by simp⟩ := by
  have hfold (pre : List (Frame arity)) :
      (fs.flatMap Frame.symbols).foldl put ⟨pre, [], by simp⟩ = ⟨pre ++ fs, [], by simp⟩ := by
    induction fs generalizing pre with
    | nil => simp
    | cons f fs ih =>
        rw [List.flatMap_cons, List.foldl_append, foldl_put_frame, ih]
        simp
  exact hfold []

/-- The frames that the symbols are, when the last of them is complete. -/
def parse (l : List β) : Option (List (Frame arity)) :=
  match (ofSymbols l : Queue arity) with
  | ⟨fs, [], _⟩ => some fs
  | _ => none

theorem parse_flatMap (fs : List (Frame arity)) : parse (fs.flatMap Frame.symbols) = some fs := by
  rw [parse, ofSymbols_frames]

/-- Symbol strings that are frames each are parsed into just these. -/
theorem parse_flatten (ls : List (List β)) (h : ∀ l ∈ ls, ∃ f : Frame arity, f.symbols = l) :
    (parse ls.flatten : Option (List (Frame arity))).map (List.map Frame.symbols) = some ls := by
  obtain ⟨fs, rfl⟩ : ∃ fs : List (Frame arity), fs.map Frame.symbols = ls := by
    induction ls with
    | nil => exact ⟨[], rfl⟩
    | cons l ls ih =>
        obtain ⟨f, rfl⟩ := h l List.mem_cons_self
        obtain ⟨fs, rfl⟩ := ih fun l hl => h l (List.mem_cons_of_mem _ hl)
        exact ⟨f :: fs, rfl⟩
  rw [← List.flatMap_def, parse_flatMap]
  rfl

end Queue

end Cwsd.Framing

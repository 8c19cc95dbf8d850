import IdempotentTransformer.Library.Words
import Mathlib.Data.List.Forall2

/-!
# IdempotentTransformer.Nodes

The cluster a server is told to join.

`main` splits the `NODES` variable at commas and hands every piece to
`Server::parse`, which wants three words: an id and two addresses.  Both
unwrap what they get, so a text that is not understood stops the server
before it starts.

* `nodes_parsed` — which texts are understood, and as what; what stops the
  server on all others;
* `nodes_rendered_iff` — which lists of nodes can be written down at all.
-/

namespace IdempotentTransformer

open Library

/-! ## The source -/

/-- `char::is_whitespace`: the characters of the Unicode property `White_Space`. -/
def isWhitespace (c : Char) : Bool :=
  (9 ≤ c.toNat && c.toNat ≤ 13) || c.toNat = 0x20 || c.toNat = 0x85 || c.toNat = 0xA0 ||
    c.toNat = 0x1680 || (0x2000 ≤ c.toNat && c.toNat ≤ 0x200A) || c.toNat = 0x2028 ||
    c.toNat = 0x2029 || c.toNat = 0x202F || c.toNat = 0x205F || c.toNat = 0x3000

/-- Why a text is no `u64`. -/
inductive IntErrorKind
  | Empty
  | InvalidDigit
  | PosOverflow
deriving DecidableEq, Repr

/-- How many values a `u64` has. -/
def u64Size : Nat := UInt64.size

/-- `value * 10 + digit`. -/
def appendDigit (value : Nat) (c : Char) : Nat := 10 * value + (c.toNat - '0'.toNat)

/-- The digits of a `u64`, after those that made up `value`. -/
def digitsU64 (value : Nat) : List Char → Except IntErrorKind Nat
  | [] => .ok value
  | c :: cs =>
    if c.isDigit then
      if appendDigit value c < u64Size then digitsU64 (appendDigit value c) cs
      else .error .PosOverflow
    else .error .InvalidDigit

/-- `str::parse::<u64>`: digits, with or without a plus sign in front. -/
def parseU64 : List Char → Except IntErrorKind Nat
  | [] => .error .Empty
  | ['+'] => .error .InvalidDigit
  | '+' :: cs => digitsU64 0 cs
  | cs => digitsU64 0 cs

/-- What stops the server: an error `Server::parse` returns, which `main`
unwraps, or the one it unwraps itself. -/
inductive NodeError
  | spec (message : String)
  | id (kind : IntErrorKind)
deriving DecidableEq, Repr

namespace Database

/-- A node of the cluster. -/
structure Server where
  id : Nat
  addrApi : String
  addrRaft : String
deriving DecidableEq, Repr

/-- `Server::parse`. -/
def Server.parse (s : String) : Except NodeError Server :=
  match words isWhitespace s.toList with
  | [id, api, raft] =>
    match parseU64 id with
    | .ok id => .ok { id := id, addrApi := String.ofList api, addrRaft := String.ofList raft }
    | .error kind => .error (.id kind)
  | _ => .error (.spec ("bad node spec: '" ++ s ++ "' (need 3 fields)"))

end Database

/-- What `main` makes of the `NODES` variable. -/
def parseNodes (nodes : String) : Except NodeError (List Database.Server) :=
  (nodes.toList.splitOn ',').mapM fun s => Database.Server.parse (String.ofList s)

/-! ## Numerals -/

/-- The value of decimal digits that follow `value`. -/
def decimal (value : Nat) (digits : List Char) : Nat := Nat.ofDigitChars 10 digits value

@[simp] theorem decimal_nil (value : Nat) : decimal value [] = value := Nat.ofDigitChars_nil

@[simp] theorem decimal_cons (value : Nat) (c : Char) (cs : List Char) :
    decimal value (c :: cs) = decimal (appendDigit value c) cs := Nat.ofDigitChars_cons

theorem le_decimal (value : Nat) (digits : List Char) : value ≤ decimal value digits := by
  induction digits generalizing value with
  | nil => simp
  | cons c cs ih =>
      rw [decimal_cons]
      exact le_trans (by unfold appendDigit; omega) (ih _)

theorem digitsU64_eq_ok_iff {value n : Nat} {cs : List Char} (hv : value < u64Size) :
    digitsU64 value cs = .ok n ↔
      (∀ d ∈ cs, d.isDigit = true) ∧ decimal value cs = n ∧ n < u64Size := by
  induction cs generalizing value with
  | nil =>
      simp only [digitsU64, decimal_nil, Except.ok.injEq]
      constructor
      · rintro rfl
        exact ⟨by simp, rfl, hv⟩
      · exact fun h => h.2.1
  | cons c cs ih =>
      unfold digitsU64
      rw [decimal_cons]
      have hle := le_decimal (appendDigit value c) cs
      split
      · next hc =>
          split
          · next hlt => rw [ih hlt, List.forall_mem_cons, and_iff_right hc]
          · next hge =>
              constructor
              · intro h
                cases h
              · rintro ⟨-, rfl, hlt⟩
                exact absurd (lt_of_le_of_lt hle hlt) hge
      · next hc =>
          constructor
          · intro h
            cases h
          · rintro ⟨hd, -, -⟩
            exact absurd (hd c List.mem_cons_self) hc

/-- What stops the reading of digits: a character that is none, or a value too
great, whatever follows. -/
def DigitsFail (value : Nat) (cs : List Char) (kind : IntErrorKind) : Prop :=
  ∃ digits rest : List Char, cs = digits ++ rest ∧ (∀ d ∈ digits, d.isDigit = true) ∧
    (kind = .InvalidDigit ∧ decimal value digits < u64Size ∧
        (∃ c ∈ rest.head?, c.isDigit = false) ∨
      kind = .PosOverflow ∧ u64Size ≤ decimal value digits)

/-- Digits fail at the first, or after it. -/
theorem digitsFail_cons_iff {value : Nat} {c : Char} {cs : List Char} {kind : IntErrorKind}
    (hv : value < u64Size) :
    DigitsFail value (c :: cs) kind ↔
      (c.isDigit = false ∧ kind = .InvalidDigit) ∨
        (c.isDigit = true ∧ u64Size ≤ appendDigit value c ∧ kind = .PosOverflow) ∨
        (c.isDigit = true ∧ appendDigit value c < u64Size ∧
          DigitsFail (appendDigit value c) cs kind) := by
  constructor
  · rintro ⟨digits, rest, hcs, hd, hfail⟩
    cases digits with
    | nil =>
        obtain rfl : c :: cs = rest := hcs
        rcases hfail with ⟨rfl, -, c', ⟨⟩, hc⟩ | ⟨-, hge⟩
        · exact .inl ⟨hc, rfl⟩
        · exact absurd hge (Nat.not_le.mpr hv)
    | cons d digits =>
        obtain ⟨rfl, rfl⟩ := List.cons.inj hcs
        rw [List.forall_mem_cons] at hd
        rw [decimal_cons] at hfail
        have hle := le_decimal (appendDigit value c) digits
        by_cases hlt : appendDigit value c < u64Size
        · exact .inr (.inr ⟨hd.1, hlt, digits, rest, rfl, hd.2, hfail⟩)
        · refine .inr (.inl ⟨hd.1, Nat.not_lt.mp hlt, ?_⟩)
          rcases hfail with ⟨-, hlt', -⟩ | ⟨rfl, -⟩
          · exact absurd (lt_of_le_of_lt hle hlt') hlt
          · rfl
  · rintro (⟨hc, rfl⟩ | ⟨hc, hge, rfl⟩ | ⟨hc, hlt, digits, rest, rfl, hd, hfail⟩)
    · exact ⟨[], c :: cs, rfl, by simp, .inl ⟨rfl, hv, c, rfl, hc⟩⟩
    · exact ⟨[c], cs, rfl, by simpa using hc, .inr ⟨rfl, by simpa using hge⟩⟩
    · refine ⟨c :: digits, rest, rfl, List.forall_mem_cons.mpr ⟨hc, hd⟩, ?_⟩
      rwa [decimal_cons]

theorem not_digitsFail_nil {value : Nat} {kind : IntErrorKind} (hv : value < u64Size) :
    ¬ DigitsFail value [] kind := by
  rintro ⟨digits, rest, hcs, -, hfail⟩
  obtain ⟨rfl, rfl⟩ := List.nil_eq_append_iff.mp hcs
  rcases hfail with ⟨-, -, c, hc, -⟩ | ⟨-, hge⟩
  · cases hc
  · exact absurd hge (Nat.not_le.mpr hv)

theorem digitsU64_eq_error_iff {value : Nat} {cs : List Char} {kind : IntErrorKind}
    (hv : value < u64Size) : digitsU64 value cs = .error kind ↔ DigitsFail value cs kind := by
  induction cs generalizing value with
  | nil =>
      constructor
      · intro h
        cases h
      · exact fun h => absurd h (not_digitsFail_nil hv)
  | cons c cs ih =>
      unfold digitsU64
      rw [digitsFail_cons_iff hv]
      split
      · next hc =>
          split
          · next hlt => simp [ih hlt, hc, hlt, Nat.not_le.mpr hlt]
          · next hge => simp [hc, hge, Nat.not_lt.mp hge, eq_comm]
      · next hc => simp [hc, eq_comm]

/-- A decimal numeral of a `u64`. -/
def Numeral (cs : List Char) (n : Nat) : Prop :=
  ∃ digits : List Char, digits ≠ [] ∧ (cs = digits ∨ cs = '+' :: digits) ∧
    (∀ d ∈ digits, d.isDigit = true) ∧ decimal 0 digits = n ∧ n < u64Size

/-- Why a text of at least one character is no numeral. -/
def NumeralFails (cs : List Char) (kind : IntErrorKind) : Prop :=
  if cs.head? = some '+' then DigitsFail 0 cs.tail kind ∨ cs = ['+'] ∧ kind = .InvalidDigit
  else DigitsFail 0 cs kind

/-- The three ways `parse` goes about a text. -/
theorem parseU64_cases (cs : List Char) :
    (cs = [] ∧ parseU64 cs = .error .Empty) ∨
      (cs = ['+'] ∧ parseU64 cs = .error .InvalidDigit) ∨
      (∃ digits, digits ≠ [] ∧ cs = '+' :: digits ∧ parseU64 cs = digitsU64 0 digits) ∨
      (cs ≠ [] ∧ cs.head? ≠ some '+' ∧ parseU64 cs = digitsU64 0 cs) := by
  unfold parseU64
  split
  · exact .inl ⟨rfl, rfl⟩
  · exact .inr (.inl ⟨rfl, rfl⟩)
  · next digits hne =>
      exact .inr (.inr (.inl ⟨digits, fun h => hne (by rw [h]), rfl, rfl⟩))
  · next hnil _ hplus =>
      refine .inr (.inr (.inr ⟨fun h => hnil h, ?_, rfl⟩))
      intro hhead
      obtain ⟨digits, hdigits⟩ := List.head?_eq_some_iff.mp hhead
      exact hplus digits hdigits

theorem u64Size_pos : 0 < u64Size := by decide

theorem not_isDigit_plus : '+'.isDigit = false := by decide

theorem parseU64_eq_ok_iff {cs : List Char} {n : Nat} : parseU64 cs = .ok n ↔ Numeral cs n := by
  rcases parseU64_cases cs with ⟨rfl, h⟩ | ⟨rfl, h⟩ | ⟨digits, hne, rfl, h⟩ | ⟨hne, hhead, h⟩
  · rw [h]
    constructor
    · intro h
      cases h
    · rintro ⟨digits, hne, hcs | hcs, -⟩
      · exact absurd hcs.symm hne
      · cases hcs
  · rw [h]
    constructor
    · intro h
      cases h
    · rintro ⟨digits, hne, rfl | hcs, hd, -⟩
      · exact absurd (hd '+' (by simp)) (by simp [not_isDigit_plus])
      · exact absurd (List.cons.inj hcs).2.symm hne
  · rw [h, digitsU64_eq_ok_iff u64Size_pos]
    constructor
    · exact fun h => ⟨digits, hne, .inr rfl, h⟩
    · rintro ⟨digits', -, rfl | hcs, hd, hrest⟩
      · exact absurd (hd '+' List.mem_cons_self) (by simp [not_isDigit_plus])
      · obtain rfl := (List.cons.inj hcs).2
        exact ⟨hd, hrest⟩
  · rw [h, digitsU64_eq_ok_iff u64Size_pos]
    constructor
    · exact fun h => ⟨cs, hne, .inl rfl, h⟩
    · rintro ⟨digits, -, rfl | rfl, hd, hrest⟩
      · exact ⟨hd, hrest⟩
      · exact absurd rfl hhead

theorem parseU64_eq_error_iff {cs : List Char} (hne : cs ≠ []) {kind : IntErrorKind} :
    parseU64 cs = .error kind ↔ NumeralFails cs kind := by
  unfold NumeralFails
  rcases parseU64_cases cs with ⟨rfl, h⟩ | ⟨rfl, h⟩ | ⟨digits, hdigits, rfl, h⟩ | ⟨-, hhead, h⟩
  · exact absurd rfl hne
  · simp [h, not_digitsFail_nil u64Size_pos, eq_comm]
  · simp [h, digitsU64_eq_error_iff u64Size_pos, hdigits]
  · rw [h, digitsU64_eq_error_iff u64Size_pos, if_neg hhead]

/-! ## Nodes -/

namespace Database.Server

/-- A text that spells the node: an id and the two addresses. -/
def Spelled (server : Server) (text : List Char) : Prop :=
  ∃ id, Spells isWhitespace [id, server.addrApi.toList, server.addrRaft.toList] text ∧
    Numeral id server.id

/-- Why a text spells no node: it has not three words, or the first is no id. -/
inductive Fails (text : List Char) : NodeError → Prop
  | spec {ws : List (List Char)} (h : Spells isWhitespace ws text) (hn : ws.length ≠ 3) :
      Fails text (.spec ("bad node spec: '" ++ String.ofList text ++ "' (need 3 fields)"))
  | id {id api raft : List Char} {kind : IntErrorKind}
      (h : Spells isWhitespace [id, api, raft] text) (hid : NumeralFails id kind) :
      Fails text (.id kind)

/-- `parse` reads the words of its text. -/
theorem parse_cases (text : List Char) :
    (∃ ws, Spells isWhitespace ws text ∧ ws.length ≠ 3 ∧ parse (String.ofList text) =
        .error (.spec ("bad node spec: '" ++ String.ofList text ++ "' (need 3 fields)"))) ∨
      ∃ id api raft, Spells isWhitespace [id, api, raft] text ∧ parse (String.ofList text) =
        match parseU64 id with
        | .ok id =>
            .ok { id := id, addrApi := String.ofList api, addrRaft := String.ofList raft }
        | .error kind => .error (.id kind) := by
  unfold parse
  rw [String.toList_ofList]
  split
  · next id api raft h => exact .inr ⟨id, api, raft, words_eq_iff.mp h, rfl⟩
  · next hno =>
      refine .inl ⟨_, words_eq_iff.mp rfl, ?_, rfl⟩
      intro hlength
      obtain ⟨id, api, raft, h⟩ := List.length_eq_three.mp hlength
      exact hno id api raft h

/-- A text spells one list of words. -/
theorem eq_of_spells {text : List Char} {ws ws' : List (List Char)}
    (h : Spells isWhitespace ws text) (h' : Spells isWhitespace ws' text) : ws = ws' :=
  h.words_eq.symm.trans h'.words_eq

theorem parse_eq_ok_iff {text : List Char} {server : Server} :
    parse (String.ofList text) = .ok server ↔ server.Spelled text := by
  rcases parse_cases text with ⟨ws, hws, hn, h⟩ | ⟨id, api, raft, hws, h⟩
  · rw [h]
    constructor
    · intro h
      cases h
    · rintro ⟨id, hspells, -⟩
      exact absurd (congrArg List.length (eq_of_spells hws hspells)) hn
  · rw [h]
    constructor
    · intro h
      split at h
      · next n hid =>
          cases h
          exact ⟨id, by simpa using hws, parseU64_eq_ok_iff.mp hid⟩
      · cases h
    · rintro ⟨id', hspells, hid⟩
      obtain ⟨rfl, rfl, rfl⟩ : id = id' ∧ api = server.addrApi.toList ∧
          raft = server.addrRaft.toList := by simpa using eq_of_spells hws hspells
      rw [parseU64_eq_ok_iff.mpr hid]
      simp

theorem parse_eq_error_iff {text : List Char} {e : NodeError} :
    parse (String.ofList text) = .error e ↔ Fails text e := by
  rcases parse_cases text with ⟨ws, hws, hn, h⟩ | ⟨id, api, raft, hws, h⟩
  · rw [h]
    constructor
    · rintro ⟨⟩
      exact .spec hws hn
    · rintro (@⟨ws', h', hn'⟩ | @⟨id, api, raft, kind, h', hid⟩)
      · rfl
      · exact absurd (congrArg List.length (eq_of_spells hws h')) hn
  · have hne : id ≠ [] := (hws.of_mem List.mem_cons_self).1
    rw [h]
    constructor
    · intro h
      split at h
      · cases h
      · next kind hid =>
          cases h
          exact .id hws ((parseU64_eq_error_iff hne).mp hid)
    · rintro (@⟨ws', h', hn'⟩ | @⟨id', api', raft', kind, h', hid⟩)
      · exact absurd (congrArg List.length (eq_of_spells h' hws)) hn'
      · obtain ⟨rfl, rfl, rfl⟩ : id = id' ∧ api = api' ∧ raft = raft' := by
          simpa using eq_of_spells hws h'
        rw [(parseU64_eq_error_iff hne).mpr hid]

end Database.Server

/-! ## What the server is told -/

/-- The text joins these pieces by commas. -/
def Joins (pieces : List (List Char)) (text : List Char) : Prop :=
  text = [','].intercalate pieces ∧ pieces ≠ [] ∧ ∀ piece ∈ pieces, ',' ∉ piece

/-- The pieces spell the nodes. -/
def SpellNodes (pieces : List (List Char)) (nodes : List Database.Server) : Prop :=
  List.Forall₂ (fun piece node => node.Spelled piece) pieces nodes

theorem parseNodes_eq_ok_iff {text : String} {nodes : List Database.Server} :
    parseNodes text = .ok nodes ↔
      ∃ pieces, Joins pieces text.toList ∧ SpellNodes pieces nodes := by
  unfold parseNodes SpellNodes
  rw [mapM_eq_ok_iff]
  simp only [Joins, ← splitOn_eq_iff, exists_eq_left', Database.Server.parse_eq_ok_iff]

/-- **What the `NODES` variable says**: the nodes its pieces spell, one each; and
where one spells none, the server is stopped by what is wrong with the first
such. -/
theorem nodes_parsed (text : String) :
    (∀ nodes, parseNodes text = .ok nodes ↔
        ∃ pieces, Joins pieces text.toList ∧ SpellNodes pieces nodes) ∧
      ∀ e, parseNodes text = .error e ↔
        ∃ before piece after nodes, Joins (before ++ piece :: after) text.toList ∧
          SpellNodes before nodes ∧ Database.Server.Fails piece e := by
  refine ⟨fun nodes => parseNodes_eq_ok_iff, fun e => ?_⟩
  unfold parseNodes SpellNodes
  rw [mapM_eq_error_iff]
  simp only [Joins, ← splitOn_eq_iff, Database.Server.parse_eq_ok_iff,
    Database.Server.parse_eq_error_iff]

/-! ## What can be written down -/

/-- The text has a word's characters, and no comma. -/
def IsAddress (addr : String) : Prop :=
  addr.toList ≠ [] ∧ ∀ c ∈ addr.toList, isWhitespace c = false ∧ c ≠ ','

/-- A node that can be written down. -/
structure Database.Server.Writable (server : Database.Server) : Prop where
  id : server.id < u64Size
  addrApi : IsAddress server.addrApi
  addrRaft : IsAddress server.addrRaft

/-- The node as one would write it. -/
def Database.Server.render (server : Database.Server) : List Char :=
  Nat.toDigits 10 server.id ++ ' ' :: server.addrApi.toList ++ ' ' :: server.addrRaft.toList

def renderNodes (nodes : List Database.Server) : String :=
  String.ofList ([','].intercalate (nodes.map Database.Server.render))

theorem isWhitespace_space : isWhitespace ' ' = true := by decide

theorem not_isWhitespace_of_isDigit {c : Char}
    (h : c.isDigit = true) : isWhitespace c = false := by
  have hrange : 48 ≤ c.toNat ∧ c.toNat ≤ 57 := by
    simpa [Char.isDigit, UInt32.le_iff_toNat_le] using h
  simp only [isWhitespace, Bool.or_eq_false_iff, Bool.and_eq_false_iff, decide_eq_false_iff_not]
  omega

theorem numeral_toDigits {n : Nat} (h : n < u64Size) : Numeral (Nat.toDigits 10 n) n :=
  ⟨_, Nat.toDigits_ne_nil, .inl rfl,
    fun _ hd => Nat.isDigit_of_mem_toDigits (by decide) (by decide) hd,
    Nat.ofDigitChars_ten_toDigits, h⟩

namespace Database.Server

variable {server : Server}

theorem Writable.spelled (h : server.Writable) : server.Spelled server.render := by
  refine ⟨Nat.toDigits 10 server.id, ?_, numeral_toDigits h.id⟩
  have hspace : ∀ c ∈ [' '], isWhitespace c = true := by simp [isWhitespace_space]
  have hraft : Spells isWhitespace [server.addrRaft.toList]
    (' ' :: server.addrRaft.toList) := by
    have hend : Spells isWhitespace [] [] := .blanks (by simp)
    have h := Spells.word hspace h.addrRaft.1 (fun c hc => (h.addrRaft.2 c hc).1) (by simp) hend
    rwa [List.append_nil] at h
  have hapi : Spells isWhitespace [server.addrApi.toList, server.addrRaft.toList]
      (' ' :: server.addrApi.toList ++ ' ' :: server.addrRaft.toList) :=
    .word hspace h.addrApi.1 (fun c hc => (h.addrApi.2 c hc).1)
      (by rintro c ⟨⟩; exact isWhitespace_space) hraft
  have hnone : ∀ c ∈ ([] : List Char), isWhitespace c = true := by simp
  have hid := Spells.word hnone Nat.toDigits_ne_nil
    (fun c hc => not_isWhitespace_of_isDigit
      (Nat.isDigit_of_mem_toDigits (b := 10) (n := server.id) (by decide) (by decide) hc))
    (by rintro c ⟨⟩; exact isWhitespace_space) hapi
  rw [List.nil_append] at hid
  rw [render, List.append_assoc]
  exact hid

theorem Writable.comma_notMem (h : server.Writable) : ',' ∉ server.render := by
  intro hcomma
  simp only [render, List.append_assoc, List.mem_append, List.mem_cons,
    List.cons_append] at hcomma
  rcases hcomma with hid | hspace | hapi | hspace | hraft
  · have := Nat.isDigit_of_mem_toDigits (by decide) (by decide) hid
    contradiction
  · contradiction
  · exact (h.addrApi.2 ',' hapi).2 rfl
  · contradiction
  · exact (h.addrRaft.2 ',' hraft).2 rfl

/-- What a piece spells is writable. -/
theorem Spelled.writable {text : List Char} (h : server.Spelled text) (hcomma : ',' ∉ text) :
    server.Writable := by
  obtain ⟨id, hspells, hid⟩ := h
  have haddress : ∀ addr : String, addr.toList ∈ [id, server.addrApi.toList,
    server.addrRaft.toList] →
      IsAddress addr := by
    intro addr hmem
    obtain ⟨hne, hword, htext⟩ := hspells.of_mem hmem
    refine ⟨hne, fun c hc => ⟨hword c hc, ?_⟩⟩
    rintro rfl
    exact hcomma (htext ',' hc)
  obtain ⟨digits, -, -, -, -, hlt⟩ := hid
  exact ⟨hlt, haddress _ (by simp), haddress _ (by simp)⟩

end Database.Server

/-- Nodes that were read can be written down. -/
theorem writable_of_spellNodes {pieces : List (List Char)} {nodes : List Database.Server}
    {text : List Char} (hjoins : Joins pieces text) (h : SpellNodes pieces nodes) :
    nodes ≠ [] ∧ ∀ node ∈ nodes, node.Writable := by
  obtain ⟨-, hne, hpieces⟩ := hjoins
  constructor
  · rintro rfl
    cases h
    exact hne rfl
  · clear hne
    induction h with
    | nil => simp
    | cons hspelled h ih =>
        rw [List.forall_mem_cons] at hpieces ⊢
        exact ⟨hspelled.writable hpieces.1, ih hpieces.2⟩

/-- Writable nodes are what their text spells. -/
theorem spellNodes_render {nodes : List Database.Server} (hne : nodes ≠ [])
    (h : ∀ node ∈ nodes, node.Writable) :
    Joins (nodes.map Database.Server.render) (renderNodes nodes).toList ∧
      SpellNodes (nodes.map Database.Server.render) nodes := by
  refine ⟨⟨by rw [renderNodes, String.toList_ofList], by simpa using hne, ?_⟩, ?_⟩
  · intro piece hpiece
    obtain ⟨node, hnode, rfl⟩ := List.mem_map.mp hpiece
    exact (h node hnode).comma_notMem
  · rw [SpellNodes, List.forall₂_map_left_iff, List.forall₂_same]
    exact fun node hnode => (h node hnode).spelled

/-- **The nodes a server can be told** are nonempty lists of writable ones: these
and no others are read back from the text one would write, and no text says
another list. -/
theorem nodes_rendered_iff (nodes : List Database.Server) :
    (parseNodes (renderNodes nodes) = .ok nodes ↔ nodes ≠ [] ∧ ∀ node ∈ nodes, node.Writable) ∧
      ((∃ text, parseNodes text = .ok nodes) ↔ nodes ≠ [] ∧ ∀ node ∈ nodes, node.Writable) := by
  have hread {text : String} (h : parseNodes text = .ok nodes) :
      nodes ≠ [] ∧ ∀ node ∈ nodes, node.Writable := by
    obtain ⟨pieces, hjoins, hspell⟩ := parseNodes_eq_ok_iff.mp h
    exact writable_of_spellNodes hjoins hspell
  have hwritten (h : nodes ≠ [] ∧ ∀ node ∈ nodes, node.Writable) :
      parseNodes (renderNodes nodes) = .ok nodes :=
    parseNodes_eq_ok_iff.mpr ⟨_, spellNodes_render h.1 h.2⟩
  refine ⟨⟨hread, hwritten⟩, ?_, fun h => ⟨_, hwritten h⟩⟩
  rintro ⟨text, h⟩
  exact hread h

/-- Two nodes, with spaces to spare. -/
example : parseNodes "1 a:8100 a:8200, +2\tb:8100  b:8200 " =
    .ok
      [{ id := 1, addrApi := "a:8100", addrRaft := "a:8200" },
        { id := 2, addrApi := "b:8100", addrRaft := "b:8200" }] := by decide +kernel

end IdempotentTransformer

import GatewayPoc.Core.Decimal

/-!
# JSON texts

The grammar of JSON as a relation between values and byte strings in UTF-8: `Parses text v` says
that `text` is a JSON text and `v` the value it stands for.  The members of an object are a list,
so that a name that occurs twice is seen.

* `Chars` : how the characters of a string may be written.  `Chars.plain_or_escaped` : a text of
  the same length as what it stands for has no escapes.
* `Plain` : a string that stands for itself between double quotes.
* `parses_member_iff` : **a text put between double quotes unescaped stands for itself exactly if it
  is plain**.
-/

namespace GatewayPoc

namespace JsonText

/-- A JSON value; a number is kept as it is written. -/
inductive Value where
  | null
  | boolean (b : Bool)
  | number (literal : Bytes)
  | string (s : Bytes)
  | array (items : List Value)
  | object (members : List (Bytes × Value))

/-- `"`. -/
def quote : UInt8 := 34

/-- `\`. -/
def backslash : UInt8 := 92

/-- `{`. -/
def openBrace : UInt8 := 123

/-- `}`. -/
def closeBrace : UInt8 := 125

/-- `:`. -/
def colon : UInt8 := 58

/-- `,`. -/
def comma : UInt8 := 44

/-- Space, tab, line feed and carriage return. -/
def isWhite (b : UInt8) : Bool := b = 32 || b = 9 || b = 10 || b = 13

/-- White space, which may stand between tokens. -/
def White (s : Bytes) : Prop := ∀ b ∈ s, isWhite b = true

/-! ### The grammar -/

/-- The character may stand in a string as it is. -/
def PlainChar (c : Char) : Prop := 32 ≤ c.toNat ∧ c.toNat ≠ 34 ∧ c.toNat ≠ 92

/-- The escapes of two bytes: what follows the backslash, and the byte that is meant. -/
def shortEscapes : List (UInt8 × UInt8) :=
  [(34, 34), (92, 92), (47, 47), (98, 8), (102, 12), (110, 10), (114, 13), (116, 9)]

/-- The value of a hexadecimal digit. -/
def hexDigit (b : UInt8) : Option ℕ :=
  if Decimal.isDigit b then some (b.toNat - 48)
  else if 97 ≤ b.toNat ∧ b.toNat ≤ 102 then some (b.toNat - 87)
  else if 65 ≤ b.toNat ∧ b.toNat ≤ 70 then some (b.toNat - 55)
  else none

/-- Four hexadecimal digits after `\u`, and their value. -/
def CodeUnit (text : Bytes) (n : ℕ) : Prop :=
  ∃ a b c d w x y z, text = [backslash, 117, a, b, c, d] ∧ hexDigit a = some w ∧
    hexDigit b = some x ∧ hexDigit c = some y ∧ hexDigit d = some z ∧
    n = ((w * 16 + x) * 16 + y) * 16 + z

/-- `text` stands for the character whose bytes are `content`.  Half of a surrogate pair alone is no
character. -/
inductive CharText : (content text : Bytes) → Prop where
  | plain {c : Char} : PlainChar c → CharText (String.utf8EncodeChar c) (String.utf8EncodeChar c)
  | escape {e b : UInt8} : (e, b) ∈ shortEscapes → CharText [b] [backslash, e]
  | unicode {c : Char} {text : Bytes} : CodeUnit text c.toNat →
      CharText (String.utf8EncodeChar c) text
  | surrogates {c : Char} {high low : Bytes} {h l : ℕ} : CodeUnit high h → CodeUnit low l →
      0xD800 ≤ h → h < 0xDC00 → 0xDC00 ≤ l → l < 0xE000 →
      c.toNat = 0x10000 + (h - 0xD800) * 0x400 + (l - 0xDC00) →
      CharText (String.utf8EncodeChar c) (high ++ low)

/-- What stands between the quotes of a string. -/
inductive Chars : (content text : Bytes) → Prop where
  | nil : Chars [] []
  | cons {c t v s : Bytes} : CharText c t → Chars v s → Chars (c ++ v) (t ++ s)

/-- One decimal digit or more. -/
def Digits (s : Bytes) : Prop := s ≠ [] ∧ ∀ b ∈ s, Decimal.isDigit b = true

/-- A number: sign, digits without a superfluous zero, fraction, exponent. -/
def IsNumber (s : Bytes) : Prop :=
  ∃ sign int frac exp, s = sign ++ int ++ frac ++ exp ∧ (sign = [] ∨ sign = [45]) ∧
    Digits int ∧ (int.head? = some 48 → int = [48]) ∧
    (frac = [] ∨ ∃ ds, Digits ds ∧ frac = 46 :: ds) ∧
    (exp = [] ∨ ∃ e sign ds, (e = 101 ∨ e = 69) ∧ (sign = [] ∨ sign = [43] ∨ sign = [45]) ∧
      Digits ds ∧ exp = e :: (sign ++ ds))

mutual

/-- The text of a value, without white space around it. -/
inductive Element : Value → Bytes → Prop where
  | null : Element .null (ascii "null")
  | boolean (b : Bool) : Element (.boolean b) (ascii (if b then "true" else "false"))
  | number {s : Bytes} : IsNumber s → Element (.number s) s
  | string {v s : Bytes} : Chars v s → Element (.string v) (quote :: s ++ [quote])
  | noItems {w : Bytes} : White w → Element (.array []) (91 :: w ++ [93])
  | array {vs : List Value} {s : Bytes} : Items vs s → Element (.array vs) (91 :: s ++ [93])
  | noMembers {w : Bytes} : White w → Element (.object []) (openBrace :: w ++ [closeBrace])
  | object {ms : List (Bytes × Value)} {s : Bytes} : Members ms s →
      Element (.object ms) (openBrace :: s ++ [closeBrace])

/-- One value or more, with commas between them. -/
inductive Items : List Value → Bytes → Prop where
  | last {v : Value} {w s w' : Bytes} : White w → Element v s → White w' →
      Items [v] (w ++ s ++ w')
  | cons {v : Value} {vs : List Value} {w s w' rest : Bytes} : White w → Element v s → White w' →
      Items vs rest → Items (v :: vs) (w ++ s ++ w' ++ comma :: rest)

/-- One member or more, with commas between them. -/
inductive Members : List (Bytes × Value) → Bytes → Prop where
  | last {m : Bytes × Value} {s : Bytes} : Member m s → Members [m] s
  | cons {m : Bytes × Value} {ms : List (Bytes × Value)} {s rest : Bytes} : Member m s →
      Members ms rest → Members (m :: ms) (s ++ comma :: rest)

/-- A name and a value, with a colon between them. -/
inductive Member : Bytes × Value → Bytes → Prop where
  | mk {n ns s w₁ w₂ w₃ w₄ : Bytes} {v : Value} : White w₁ → Chars n ns → White w₂ → White w₃ →
      Element v s → White w₄ →
      Member (n, v) (w₁ ++ (quote :: ns ++ [quote]) ++ w₂ ++ colon :: (w₃ ++ s ++ w₄))

end

/-- `text` is a JSON text, and `v` is what it stands for. -/
def Parses (text : Bytes) (v : Value) : Prop :=
  ∃ w s w', White w ∧ Element v s ∧ White w' ∧ text = w ++ s ++ w'

/-! ### Characters -/

/-- A string that stands for itself between double quotes: characters from U+0020 on, other than the
double quote and the backslash, in UTF-8. -/
def Plain (v : Bytes) : Prop :=
  ∃ cs : List Char, v = cs.flatMap String.utf8EncodeChar ∧ ∀ c ∈ cs, PlainChar c

/-- The bytes of a character beyond ASCII are not bytes of ASCII characters. -/
theorem mem_utf8EncodeChar {c : Char} {b : UInt8} (hb : b ∈ String.utf8EncodeChar c) :
    b.toNat = c.toNat ∨ 128 ≤ b.toNat := by
  have hval : c.val.toNat = c.toNat := rfl
  simp only [String.utf8EncodeChar, hval] at hb
  split_ifs at hb
  · left
    obtain rfl := List.mem_singleton.1 hb
    rw [UInt8.toNat_ofNat']
    omega
  all_goals
    right
    simp only [List.mem_cons, List.not_mem_nil, or_false] at hb
    rcases hb with rfl | rfl | rfl | rfl <;> rw [UInt8.toNat_ofNat'] <;> omega

theorem PlainChar.clean {c : Char} (h : PlainChar c) {b : UInt8}
    (hb : b ∈ String.utf8EncodeChar c) : 32 ≤ b.toNat ∧ b ≠ quote ∧ b ≠ backslash := by
  obtain ⟨hlow, hquote, hbackslash⟩ := h
  simp only [quote, backslash, ne_eq, ← UInt8.toNat_inj, UInt8.reduceToNat]
  rcases mem_utf8EncodeChar hb with hb | hb <;> omega

/-- Nothing of a plain string ends it, starts an escape or is a control character. -/
theorem Plain.clean {v : Bytes} (h : Plain v) :
    ∀ b ∈ v, 32 ≤ b.toNat ∧ b ≠ quote ∧ b ≠ backslash := by
  rintro b hb
  obtain ⟨cs, rfl, hcs⟩ := h
  obtain ⟨c, hc, hb⟩ := List.mem_flatMap.1 hb
  exact (hcs c hc).clean hb

theorem plain_nil : Plain [] := ⟨[], rfl, by simp⟩

theorem PlainChar.plain {c : Char} (h : PlainChar c) : Plain (String.utf8EncodeChar c) :=
  ⟨[c], by simp, by simpa using h⟩

theorem Plain.append {v w : Bytes} (hv : Plain v) (hw : Plain w) : Plain (v ++ w) := by
  obtain ⟨cs, rfl, hcs⟩ := hv
  obtain ⟨ds, rfl, hds⟩ := hw
  exact ⟨cs ++ ds, by simp, fun c hc => (List.mem_append.1 hc).elim (hcs c) (hds c)⟩

/-- Printable ASCII, other than the double quote and the backslash. -/
def isPlainAscii (b : UInt8) : Bool :=
  32 ≤ b.toNat && b.toNat < 127 && b != quote && b != backslash

theorem isPlainAscii_iff {b : UInt8} :
    isPlainAscii b = true ↔ 32 ≤ b.toNat ∧ b.toNat < 127 ∧ b ≠ quote ∧ b ≠ backslash := by
  simp only [isPlainAscii, Bool.and_eq_true, decide_eq_true_eq, bne_iff_ne, and_assoc]

theorem plain_of_ascii {v : Bytes} (h : v.all isPlainAscii = true) : Plain v := by
  induction v with
  | nil => exact plain_nil
  | cons b v ih =>
    obtain ⟨hb, hv⟩ := Bool.and_eq_true_iff.1 (List.all_cons ▸ h)
    obtain ⟨hlow, hhigh, hquote, hbackslash⟩ := isPlainAscii_iff.1 hb
    have hval : (Char.ofUInt8 b).val.toNat = b.toNat := UInt8.toNat_toUInt32 b
    have hplain : PlainChar (Char.ofUInt8 b) := by
      simp only [quote, backslash, ne_eq, ← UInt8.toNat_inj, UInt8.reduceToNat] at hquote hbackslash
      simp only [PlainChar, Char.toNat, hval]
      omega
    have hencode : String.utf8EncodeChar (Char.ofUInt8 b) = [b] := by
      simp only [String.utf8EncodeChar, hval]
      rw [if_pos (by omega), UInt8.ofNat_toNat]
    have hhead := hplain.plain
    rw [hencode] at hhead
    exact hhead.append (ih hv)

/-- A character is written as it is, or by an escape that is longer than it. -/
theorem CharText.plain_or_escape {c t : Bytes} (h : CharText c t) :
    (t = c ∧ Plain c) ∨ (c.length < t.length ∧ ∃ q, t = backslash :: q) := by
  have hlength (c : Char) : (String.utf8EncodeChar c).length ≤ 4 := by
    rw [String.length_utf8EncodeChar]
    exact c.utf8Size_le_four
  cases h with
  | plain hc => exact Or.inl ⟨rfl, hc.plain⟩
  | escape he => exact Or.inr ⟨by simp, _, rfl⟩
  | @unicode c text hu =>
    obtain ⟨a, b, d, e, -, -, -, -, rfl, -⟩ := hu
    exact Or.inr ⟨Nat.lt_of_le_of_lt (hlength c) (by simp), _, rfl⟩
  | @surrogates c high low h l hhigh hlow =>
    obtain ⟨a, b, d, e, -, -, -, -, rfl, -⟩ := hhigh
    exact Or.inr ⟨Nat.lt_of_le_of_lt (hlength c) (by simp), _, rfl⟩

/-- **A text stands for itself, or is longer than what it stands for** and has a backslash before
any double quote. -/
theorem Chars.plain_or_escaped {v s : Bytes} (h : Chars v s) :
    (s = v ∧ Plain v) ∨
      (v.length < s.length ∧
        ∃ p q, s = p ++ backslash :: q ∧ ∀ b ∈ p, b ≠ quote ∧ b ≠ backslash) := by
  induction h with
  | nil => exact Or.inl ⟨rfl, plain_nil⟩
  | @cons c t v s hc _ ih =>
    rcases hc.plain_or_escape with ⟨rfl, hplain⟩ | ⟨hlt, q, rfl⟩
    · rcases ih with ⟨rfl, hv⟩ | ⟨hlt, p, q, rfl, hp⟩
      · exact Or.inl ⟨rfl, hplain.append hv⟩
      · refine Or.inr ⟨by simpa using hlt, t ++ p, q, by simp, fun b hb => ?_⟩
        rcases List.mem_append.1 hb with hb | hb
        · exact (hplain.clean b hb).2
        · exact hp b hb
    · have hle : v.length ≤ s.length := by
        rcases ih with ⟨rfl, -⟩ | ⟨hlt, -⟩ <;> omega
      refine Or.inr ⟨?_, [], q ++ s, by simp, by simp⟩
      simp only [List.length_append]
      omega

theorem Chars.length_le {v s : Bytes} (h : Chars v s) : v.length ≤ s.length := by
  rcases h.plain_or_escaped with ⟨rfl, -⟩ | ⟨hlt, -⟩ <;> omega

/-- A text no longer than what it stands for is plain. -/
theorem Chars.plain_of_length_le {v s : Bytes} (h : Chars v s) (hle : s.length ≤ v.length) :
    s = v ∧ Plain v := by
  rcases h.plain_or_escaped with h | ⟨hlt, -⟩
  · exact h
  · omega

/-- A plain string may be put between double quotes as it is. -/
theorem Plain.chars {v : Bytes} (h : Plain v) : Chars v v := by
  obtain ⟨cs, rfl, hcs⟩ := h
  induction cs with
  | nil => exact .nil
  | cons c cs ih =>
    rw [List.flatMap_cons]
    exact .cons (.plain (hcs c (by simp))) (ih fun d hd => hcs d (by simp [hd]))

/-! ### An object with one member -/

theorem white_nil : White [] := by simp [White]

/-- A text that starts with a token has no white space before it. -/
theorem White.skip {w x y : Bytes} {b : UInt8} (hw : White w) (hb : isWhite b = false)
    (h : w ++ x = b :: y) : x = b :: y := by
  cases w with
  | nil => exact h
  | cons a w =>
    obtain ⟨rfl, -⟩ := List.cons.inj h
    rw [hw a (by simp)] at hb
    cases hb

/-- A run without double quotes and backslashes ends where one of these comes. -/
theorem takeWhile_clean {p x : Bytes} {b : UInt8} (hp : ∀ b ∈ p, b ≠ quote ∧ b ≠ backslash)
    (hb : b = quote ∨ b = backslash) :
    (p ++ b :: x).takeWhile (fun b => decide (b ≠ quote ∧ b ≠ backslash)) = p := by
  rw [List.takeWhile_append_of_pos fun b hmem => decide_eq_true (hp b hmem)]
  rw [List.takeWhile_cons_of_neg (by rcases hb with rfl | rfl <;> decide), List.append_nil]

/-- The quote that ends a plain string is the first one. -/
theorem Chars.rest_eq_of_plain {n ns x y : Bytes} (h : Chars n ns) (hn : Plain n)
    (heq : ns ++ quote :: x = n ++ quote :: y) : x = y := by
  have hclean : ∀ b ∈ n, b ≠ quote ∧ b ≠ backslash := fun b hb => (hn.clean b hb).2
  rcases h.plain_or_escaped with ⟨rfl, -⟩ | ⟨-, p, q, rfl, hp⟩
  · exact (List.cons.inj (List.append_cancel_left heq)).2
  · rw [List.append_assoc, List.cons_append] at heq
    have hpn : p = n := by
      rw [← takeWhile_clean hp (Or.inr rfl), heq, takeWhile_clean hclean (Or.inl rfl)]
    subst hpn
    cases List.append_cancel_left heq

/-- What the text of an object with one member, a string, consists of. -/
theorem Parses.exists_member {text n m : Bytes} (h : Parses text (.object [(n, .string m)])) :
    ∃ w₁ w₂ ns w₃ w₄ s w₅ w₆, White w₁ ∧ White w₂ ∧ Chars n ns ∧ White w₃ ∧ White w₄ ∧ Chars m s ∧
      w₁ ++ openBrace :: (w₂ ++ quote :: (ns ++ quote :: (w₃ ++ colon :: (w₄ ++ quote ::
        (s ++ quote :: (w₅ ++ closeBrace :: w₆)))))) = text := by
  obtain ⟨w₁, s, w₆, hw₁, helement, -, rfl⟩ := h
  cases helement with
  | object hmembers =>
    cases hmembers with
    | cons _ hrest => cases hrest
    | last hmember =>
      cases hmember with
      | @mk _ ns _ w₂ w₃ w₄ w₅ _ hw₂ hns hw₃ hw₄ hvalue _ =>
        cases hvalue with
        | @string _ s hs =>
          refine ⟨w₁, w₂, ns, w₃, w₄, s, w₅, w₆, hw₁, hw₂, hns, hw₃, hw₄, hs, ?_⟩
          simp only [List.append_assoc, List.cons_append, List.nil_append]

/-- **Unescaped is right exactly for plain strings.** -/
theorem parses_member_iff {n m : Bytes} (hn : Plain n) :
    Parses ([openBrace, quote] ++ n ++ [quote, colon, 32, quote] ++ m ++ [quote, closeBrace])
      (.object [(n, .string m)]) ↔ Plain m := by
  constructor
  · intro h
    obtain ⟨w₁, w₂, ns, w₃, w₄, s, w₅, w₆, hw₁, hw₂, hns, hw₃, hw₄, hs, htext⟩ := h.exists_member
    simp only [List.append_assoc, List.cons_append, List.nil_append] at htext
    have hbrace := hw₁.skip (by decide) htext
    have hname := hw₂.skip (by decide) (List.cons.inj hbrace).2
    have hafter := hns.rest_eq_of_plain hn (List.cons.inj hname).2
    have hcolon := hw₃.skip (by decide) hafter
    -- one space after the colon, then the string
    have hspace : w₄ ++ quote :: (s ++ quote :: (w₅ ++ closeBrace :: w₆)) =
        32 :: quote :: (m ++ [quote, closeBrace]) := (List.cons.inj hcolon).2
    obtain ⟨w, hw, hrest⟩ : ∃ w, White w ∧ w ++ quote :: (s ++ quote :: (w₅ ++ closeBrace :: w₆)) =
        quote :: (m ++ [quote, closeBrace]) := by
      cases w₄ with
      | nil => cases hspace
      | cons b w =>
        obtain ⟨rfl, hrest⟩ := List.cons.inj hspace
        exact ⟨w, fun b hb => hw₄ b (by simp [hb]), hrest⟩
    have hvalue := hw.skip (by decide) hrest
    -- what is left is as long as `m` and two bytes, and `s` is at least as long as `m`
    have hlength := congrArg List.length (List.cons.inj hvalue).2
    simp only [List.length_append, List.length_cons, List.length_nil] at hlength
    exact (hs.plain_of_length_le (by omega)).2
  · intro hm
    have hspace : White [32] := by simp [White, isWhite]
    have hmember := Member.mk white_nil hn.chars white_nil hspace (.string hm.chars) white_nil
    exact ⟨[], _, [], white_nil, .object (.last hmember), white_nil, by simp⟩

end JsonText

end GatewayPoc

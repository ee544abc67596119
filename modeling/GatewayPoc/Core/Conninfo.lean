import GatewayPoc.Core.Decimal
import Mathlib.Data.List.Nodup
import Mathlib.Data.List.Perm.Subperm
import Mathlib.Tactic.SplitIfs

/-!
# Connection strings

The grammar of `keyword=value` connection strings, as `libpq` reads them: pairs separated by white
space, values in single quotes or without, backslash escapes in both, and the last pair of a keyword
counts.

* `Reads` : the pairs of a string, in order.  `Reads.unique` : there is one way to read a string.
* `Reads.cost_le` : **the pairs that are read are no longer than the string**, and as long as it
  only if no value of them needs an escape.
* `yields_render_iff` : pairs that are written one after the other, without quotes and escapes, are
  read back exactly if no value needs them.
-/

namespace GatewayPoc

namespace Conninfo

/-- `=`. -/
def equals : UInt8 := 61

/-- `'`. -/
def singleQuote : UInt8 := 39

/-- `\`. -/
def backslash : UInt8 := 92

/-- The space between two pairs. -/
def space : UInt8 := 32

/-- `isspace`. -/
def isSpace (b : UInt8) : Bool := b = 32 || (9 ≤ b.toNat && b.toNat ≤ 13)

/-- A string up to its first zero byte. -/
def cString (s : Bytes) : Bytes := s.takeWhile fun b => b ≠ 0

/-- What follows the white space that a string starts with. -/
def skip (s : Bytes) : Bytes := s.dropWhile isSpace

/-- The byte belongs to the name of a parameter. -/
def isName (b : UInt8) : Bool := b ≠ equals && !isSpace b

/-- A value without quotes, up to white space, and what follows this. -/
def bare : Bytes → Bytes × Bytes
  | [] => ([], [])
  | b :: s =>
    if isSpace b = true then ([], s)
    else if b = backslash then
      match s with
      | [] => ([], [])
      | c :: s => (c :: (bare s).1, (bare s).2)
    else (b :: (bare s).1, (bare s).2)

/-- A value after its opening quote, up to the closing one, and what follows this. -/
def quoted : Bytes → Option (Bytes × Bytes)
  | [] => none
  | b :: s =>
    if b = singleQuote then some ([], s)
    else if b = backslash then
      match s with
      | [] => none
      | c :: s => (quoted s).map fun r => (c :: r.1, r.2)
    else (quoted s).map fun r => (b :: r.1, r.2)

/-- A value. -/
def value : Bytes → Option (Bytes × Bytes)
  | [] => some ([], [])
  | b :: s => if b = singleQuote then quoted s else some (bare (b :: s))

/-- A pair, and what follows it. -/
def pair (s : Bytes) : Option ((Bytes × Bytes) × Bytes) :=
  match skip (s.dropWhile isName) with
  | [] => none
  | b :: rest =>
    if b = equals then (value (skip rest)).map fun r => ((s.takeWhile isName, r.1), r.2) else none

/-- `s` consists of the pairs `ps`. -/
inductive Reads : Bytes → List (Bytes × Bytes) → Prop where
  | nil {s : Bytes} : skip s = [] → Reads s []
  | cons {s rest : Bytes} {p : Bytes × Bytes} {ps : List (Bytes × Bytes)} :
      pair (skip s) = some (p, rest) → Reads rest ps → Reads s (p :: ps)

/-- The value of the last pair of a keyword. -/
def lookup (ps : List (Bytes × Bytes)) (k : Bytes) : Option Bytes :=
  (ps.reverse.find? fun p => p.1 = k).map Prod.snd

/-- A string gives the parameters `ps`, and no others. -/
def Yields (s : Bytes) (ps : List (Bytes × Bytes)) : Prop :=
  ∃ qs, Reads (cString s) qs ∧ ∀ k, lookup qs k = lookup ps k

/-- Pairs one after the other, without quotes and escapes. -/
def render (ps : List (Bytes × Bytes)) : Bytes :=
  List.intercalate [space] (ps.map fun p => p.1 ++ equals :: p.2)

/-- A value that needs no quotes and no escapes. -/
def Clean (v : Bytes) : Prop :=
  (∀ b ∈ v, isSpace b = false ∧ b ≠ backslash ∧ b ≠ 0) ∧ v.head? ≠ some singleQuote

/-- A keyword. -/
def IsKeyword (k : Bytes) : Prop := k ≠ [] ∧ ∀ b ∈ k, isName b = true ∧ b ≠ 0

/-- `IsKeyword`, as a check. -/
def isKeyword (k : Bytes) : Bool := !k.isEmpty && k.all fun b => isName b && b != 0

theorem isKeyword_iff {k : Bytes} : isKeyword k = true ↔ IsKeyword k := by
  simp only [isKeyword, IsKeyword, Bool.and_eq_true, Bool.not_eq_true', List.isEmpty_eq_false_iff,
    List.all_eq_true, bne_iff_ne]

/-- `Clean`, as a check. -/
def isClean (v : Bytes) : Bool :=
  (v.all fun b => !isSpace b && b != backslash && b != 0) && v.head? != some singleQuote

theorem isClean_iff {v : Bytes} : isClean v = true ↔ Clean v := by
  simp only [isClean, Clean, Bool.and_eq_true, Bool.not_eq_true', List.all_eq_true, bne_iff_ne,
    and_assoc]

instance (k : Bytes) : Decidable (IsKeyword k) := decidable_of_iff _ isKeyword_iff

instance (v : Bytes) : Decidable (Clean v) := decidable_of_iff _ isClean_iff

/-! ### What is read is no longer than the string -/

theorem Reads.unique {s : Bytes} {ps qs : List (Bytes × Bytes)} (h : Reads s ps)
    (h' : Reads s qs) : ps = qs := by
  induction h generalizing qs with
  | nil hskip =>
    cases h' with
    | nil _ => rfl
    | cons hpair _ =>
      rw [hskip] at hpair
      cases hpair
  | cons hpair _ ih =>
    cases h' with
    | nil hskip =>
      rw [hskip] at hpair
      cases hpair
    | cons hpair' hrest =>
      rw [hpair] at hpair'
      obtain ⟨rfl, rfl⟩ := Prod.mk.inj (Option.some.inj hpair')
      rw [ih hrest]

/-- The value ends with the string, or a byte that ends it is dropped. -/
def Ends (tail rest : Bytes) : Prop := (tail = [] ∧ rest = []) ∨ ∃ b, tail = b :: rest

theorem bare_of_space {b : UInt8} (h : isSpace b = true) (s : Bytes) : bare (b :: s) = ([], s) := by
  unfold bare
  rw [if_pos h]

theorem bare_of_ordinary {b : UInt8} (h : isSpace b = false) (h' : b ≠ backslash) (s : Bytes) :
    bare (b :: s) = (b :: (bare s).1, (bare s).2) := by
  conv_lhs => unfold bare
  rw [if_neg (Bool.eq_false_iff.1 h), if_neg h']

/-- A value without quotes is what is written, or shorter than it. -/
theorem bare_split (s : Bytes) :
    ∃ raw tail, s = raw ++ tail ∧ Ends tail (bare s).2 ∧
      ((raw = (bare s).1 ∧ ∀ b ∈ raw, isSpace b = false ∧ b ≠ backslash) ∨
        (bare s).1.length < raw.length) := by
  induction s using bare.induct with
  | case1 => exact ⟨[], [], rfl, Or.inl ⟨rfl, rfl⟩, Or.inl ⟨rfl, by simp⟩⟩
  | case2 b s hspace =>
    rw [bare_of_space hspace]
    exact ⟨[], b :: s, rfl, Or.inr ⟨b, rfl⟩, Or.inl ⟨rfl, by simp⟩⟩
  | case3 hspace =>
    have hbare : bare [backslash] = ([], []) := rfl
    rw [hbare]
    exact ⟨[backslash], [], rfl, Or.inl ⟨rfl, rfl⟩, Or.inr (by simp)⟩
  | case4 c s hspace ih =>
    have hbare : bare (backslash :: c :: s) = (c :: (bare s).1, (bare s).2) := by
      conv_lhs => unfold bare
      rw [if_neg hspace, if_pos rfl]
    rw [hbare]
    obtain ⟨raw, tail, rfl, hends, hraw⟩ := ih
    refine ⟨backslash :: c :: raw, tail, rfl, hends, Or.inr ?_⟩
    have hle : (bare (raw ++ tail)).1.length ≤ raw.length := by
      rcases hraw with ⟨hraw, -⟩ | hlt
      · rw [← hraw]
      · omega
    simp only [List.length_cons]
    omega
  | case5 b s hspace hbackslash ih =>
    have hordinary : isSpace b = false := Bool.eq_false_iff.2 hspace
    rw [bare_of_ordinary hordinary hbackslash]
    obtain ⟨raw, tail, rfl, hends, hraw⟩ := ih
    refine ⟨b :: raw, tail, rfl, hends, ?_⟩
    rcases hraw with ⟨hraw, hclean⟩ | hlt
    · refine Or.inl ⟨by rw [← hraw], fun c hc => ?_⟩
      rcases List.mem_cons.1 hc with rfl | hc
      · exact ⟨hordinary, hbackslash⟩
      · exact hclean c hc
    · exact Or.inr (by simpa using hlt)

/-- A value after its opening quote is at most as long as what is written. -/
theorem quoted_split {s : Bytes} {r : Bytes × Bytes} (h : quoted s = some r) :
    ∃ raw, s = raw ++ singleQuote :: r.2 ∧ r.1.length ≤ raw.length := by
  induction s using quoted.induct generalizing r with
  | case1 => cases h
  | case2 s =>
    have hquoted : quoted (singleQuote :: s) = some ([], s) := by
      unfold quoted
      rw [if_pos rfl]
    rw [hquoted] at h
    obtain rfl := Option.some.inj h
    exact ⟨[], rfl, Nat.le_refl 0⟩
  | case3 hquote => cases h
  | case4 c s hquote ih =>
    have hquoted : quoted (backslash :: c :: s) = (quoted s).map fun r => (c :: r.1, r.2) := by
      conv_lhs => unfold quoted
      rw [if_neg hquote, if_pos rfl]
    rw [hquoted] at h
    obtain ⟨r', hr', rfl⟩ := Option.map_eq_some_iff.1 h
    obtain ⟨raw, rfl, hle⟩ := ih hr'
    exact ⟨backslash :: c :: raw, rfl, by simp only [List.length_cons]; omega⟩
  | case5 b s hquote hbackslash ih =>
    have hquoted : quoted (b :: s) = (quoted s).map fun r => (b :: r.1, r.2) := by
      conv_lhs => unfold quoted
      rw [if_neg hquote, if_neg hbackslash]
    rw [hquoted] at h
    obtain ⟨r', hr', rfl⟩ := Option.map_eq_some_iff.1 h
    obtain ⟨raw, rfl, hle⟩ := ih hr'
    exact ⟨b :: raw, rfl, by simpa using hle⟩

/-- A value is what is written, and needs no quotes and no escapes, or it is shorter. -/
theorem value_split {s : Bytes} {r : Bytes × Bytes} (h : value s = some r) (h0 : ∀ b ∈ s, b ≠ 0) :
    ∃ raw tail, s = raw ++ tail ∧ Ends tail r.2 ∧
      ((raw = r.1 ∧ Clean r.1) ∨ r.1.length < raw.length) := by
  cases s with
  | nil =>
    obtain rfl := Option.some.inj h
    exact ⟨[], [], rfl, Or.inl ⟨rfl, rfl⟩, Or.inl ⟨rfl, by simp [Clean]⟩⟩
  | cons b s =>
    simp only [value] at h
    split_ifs at h with hquote
    · obtain ⟨raw, rfl, hle⟩ := quoted_split h
      exact ⟨b :: raw, _, rfl, Or.inr ⟨_, rfl⟩, Or.inr (by simp only [List.length_cons]; omega)⟩
    · obtain rfl := Option.some.inj h
      obtain ⟨raw, tail, hs, hends, hraw⟩ := bare_split (b :: s)
      refine ⟨raw, tail, hs, hends, hraw.imp_left ?_⟩
      rintro ⟨hraw, hclean⟩
      refine ⟨hraw, ?_⟩
      rw [← hraw]
      refine ⟨fun c hc => ⟨(hclean c hc).1, (hclean c hc).2, h0 c ?_⟩, ?_⟩
      · rw [hs]
        exact List.mem_append_left tail hc
      · -- the first byte of the value is `b`
        cases raw with
        | nil => simp
        | cons c raw =>
          obtain ⟨rfl, -⟩ := List.cons.inj hs
          simpa using hquote

theorem skip_suffix (s : Bytes) : skip s <:+ s := List.dropWhile_suffix isSpace

/-- A pair is no longer than what is written. -/
theorem pair_split {s rest : Bytes} {p : Bytes × Bytes} (h : pair s = some (p, rest))
    (h0 : ∀ b ∈ s, b ≠ 0) :
    ∃ tail, tail <:+ s ∧ Ends tail rest ∧ p.1.length + 1 + p.2.length + tail.length ≤ s.length ∧
      (p.1.length + 1 + p.2.length + tail.length = s.length → Clean p.2) := by
  unfold pair at h
  split at h
  · cases h
  next b t hskip =>
    split_ifs at h with hequals
    obtain ⟨r, hr, heq⟩ := Option.map_eq_some_iff.1 h
    obtain ⟨rfl, rfl⟩ := Prod.mk.inj heq
    dsimp only
    -- name, white space, `=`, white space, value, rest
    have hafter : (b :: t) <:+ s.dropWhile isName := hskip ▸ skip_suffix _
    have hvalue : skip t <:+ s.dropWhile isName :=
      (skip_suffix t).trans ((List.suffix_cons b t).trans hafter)
    have hsuffix : skip t <:+ s := hvalue.trans (List.dropWhile_suffix isName)
    obtain ⟨raw, tail, hraw, hends, hclean⟩ := value_split hr fun c hc => h0 c (hsuffix.subset hc)
    have htail : tail <:+ s := List.IsSuffix.trans ⟨raw, hraw.symm⟩ hsuffix
    have hlength : (s.takeWhile isName).length + (s.dropWhile isName).length = s.length := by
      rw [← List.length_append, List.takeWhile_append_dropWhile]
    have hle := hafter.length_le
    have hle' := (skip_suffix t).length_le
    rw [hraw] at hle'
    simp only [List.length_cons, List.length_append] at hle hle'
    refine ⟨tail, htail, hends, ?_, fun htight => ?_⟩
    · rcases hclean with ⟨rfl, -⟩ | hlt <;> omega
    · rcases hclean with ⟨-, hclean⟩ | hlt
      · exact hclean
      · omega

/-- The length of pairs that are written one after the other, with one byte after each. -/
def cost : List (Bytes × Bytes) → ℕ
  | [] => 0
  | p :: ps => p.1.length + p.2.length + 2 + cost ps

@[simp] theorem cost_nil : cost [] = 0 := rfl

@[simp] theorem cost_cons (p : Bytes × Bytes) (ps : List (Bytes × Bytes)) :
    cost (p :: ps) = p.1.length + p.2.length + 2 + cost ps := rfl

theorem cost_perm {ps qs : List (Bytes × Bytes)} (h : ps.Perm qs) : cost ps = cost qs := by
  induction h with
  | nil => rfl
  | cons p _ ih => rw [cost_cons, cost_cons, ih]
  | swap p q ps => simp only [cost_cons]; omega
  | trans _ _ ih ih' => rw [ih, ih']

theorem cost_le_of_sublist {ps qs : List (Bytes × Bytes)} (h : ps.Sublist qs) :
    cost ps ≤ cost qs := by
  induction h with
  | slnil => exact Nat.le_refl 0
  | cons p _ ih => rw [cost_cons]; omega
  | cons_cons p _ ih => simp only [cost_cons]; omega

/-- **The pairs that are read are no longer than the string**, and as long only if no value needs an
escape. -/
theorem Reads.cost_le {s : Bytes} {ps : List (Bytes × Bytes)} (h : Reads s ps)
    (h0 : ∀ b ∈ s, b ≠ 0) :
    cost ps ≤ s.length + 1 ∧ (cost ps = s.length + 1 → ∀ p ∈ ps, Clean p.2) := by
  induction h with
  | nil _ => simp
  | @cons s rest p ps hpair hrest ih =>
    have hskip := (skip_suffix s).length_le
    obtain ⟨tail, htail, hends, hle, hclean⟩ :=
      pair_split hpair fun b hb => h0 b ((skip_suffix s).subset hb)
    obtain ⟨htaille, htailclean⟩ : cost ps ≤ tail.length ∧
        (cost ps = tail.length → ∀ q ∈ ps, Clean q.2) := by
      rcases hends with ⟨rfl, rfl⟩ | ⟨b, rfl⟩
      · -- nothing is left to read
        cases hrest with
        | nil _ => simp
        | cons hpair' _ => cases hpair'
      · have hsuffix : rest <:+ s :=
          ((List.suffix_cons b rest).trans htail).trans (skip_suffix s)
        exact ih fun c hc => h0 c (hsuffix.subset hc)
    rw [cost_cons]
    refine ⟨by omega, fun htight q hq => ?_⟩
    rcases List.mem_cons.1 hq with rfl | hq
    · exact hclean (by omega)
    · exact htailclean (by omega) q hq

/-! ### What is written is read -/

theorem render_singleton (p : Bytes × Bytes) : render [p] = p.1 ++ equals :: p.2 := by
  simp [render]

theorem render_cons_cons (p q : Bytes × Bytes) (ps : List (Bytes × Bytes)) :
    render (p :: q :: ps) = p.1 ++ equals :: (p.2 ++ space :: render (q :: ps)) := by
  simp [render, List.intercalate]

/-- Pairs are written with one byte between them, and none at the end. -/
theorem length_render {ps : List (Bytes × Bytes)} (h : ps ≠ []) :
    (render ps).length + 1 = cost ps := by
  induction ps with
  | nil => exact absurd rfl h
  | cons p ps ih =>
    cases ps with
    | nil =>
      simp only [render_singleton, cost_cons, cost_nil, List.length_append, List.length_cons]
      omega
    | cons q ps =>
      have hrest := ih (List.cons_ne_nil q ps)
      simp only [render_cons_cons, List.length_append, List.length_cons, cost_cons p] at hrest ⊢
      omega

/-- A run of ordinary bytes goes into the value as it is. -/
theorem bare_append {v : Bytes} (hv : ∀ b ∈ v, isSpace b = false ∧ b ≠ backslash) (tail : Bytes) :
    bare (v ++ tail) = (v ++ (bare tail).1, (bare tail).2) := by
  induction v with
  | nil => rfl
  | cons b v ih =>
    obtain ⟨hspace, hbackslash⟩ := hv b (by simp)
    rw [List.cons_append, bare_of_ordinary hspace hbackslash, ih fun c hc => hv c (by simp [hc])]
    rfl

theorem skip_of_head {b : UInt8} (h : isSpace b = false) (s : Bytes) : skip (b :: s) = b :: s :=
  List.dropWhile_cons_of_neg (by simp [h])

theorem isSpace_of_isName {b : UInt8} (h : isName b = true) : isSpace b = false := by
  simp only [isName, Bool.and_eq_true, Bool.not_eq_true'] at h
  exact h.2

/-- A clean value is read as it is; an empty one only at the end of the string. -/
theorem value_clean {v tail rest : Bytes} (hv : Clean v) (htail : bare tail = ([], rest))
    (hempty : v = [] → tail = []) : value (skip (v ++ tail)) = some (v, rest) := by
  cases v with
  | nil =>
    obtain rfl := hempty rfl
    obtain ⟨-, rfl⟩ := Prod.mk.inj htail
    rfl
  | cons b v =>
    obtain ⟨hbytes, hhead⟩ := hv
    have hquote : b ≠ singleQuote := by simpa using hhead
    rw [List.cons_append, skip_of_head (hbytes b (by simp)).1]
    simp only [value, if_neg hquote]
    rw [← List.cons_append, bare_append fun c hc => ⟨(hbytes c hc).1, (hbytes c hc).2.1⟩, htail,
      List.append_nil]

theorem pair_clean {k v tail rest : Bytes} (hk : IsKeyword k) (hv : Clean v)
    (htail : bare tail = ([], rest)) (hempty : v = [] → tail = []) :
    pair (k ++ equals :: (v ++ tail)) = some ((k, v), rest) := by
  have hname : ∀ b ∈ k, isName b = true := fun b hb => (hk.2 b hb).1
  have hdrop : (k ++ equals :: (v ++ tail)).dropWhile isName = equals :: (v ++ tail) := by
    rw [List.dropWhile_append_of_pos hname, List.dropWhile_cons_of_neg (by decide)]
  have htake : (k ++ equals :: (v ++ tail)).takeWhile isName = k := by
    rw [List.takeWhile_append_of_pos hname, List.takeWhile_cons_of_neg (by decide), List.append_nil]
  simp only [pair, hdrop, htake, skip_of_head (show isSpace equals = false by decide), if_true,
    value_clean hv htail hempty, Option.map_some]

theorem skip_keyword {k : Bytes} (hk : IsKeyword k) (s : Bytes) : skip (k ++ s) = k ++ s := by
  cases k with
  | nil => exact absurd rfl hk.1
  | cons b k => exact skip_of_head (isSpace_of_isName (hk.2 b (by simp)).1) _

/-- Pairs with clean values are read as they are written. -/
theorem reads_render {ps : List (Bytes × Bytes)} (hne : ps ≠ []) (hk : ∀ p ∈ ps, IsKeyword p.1)
    (hempty : ∀ p ∈ ps.dropLast, p.2 ≠ []) (hclean : ∀ p ∈ ps, Clean p.2) :
    Reads (render ps) ps := by
  induction ps with
  | nil => exact absurd rfl hne
  | cons p ps ih =>
    have hkp := hk p (by simp)
    have hvp := hclean p (by simp)
    cases ps with
    | nil =>
      have hpair : pair (p.1 ++ equals :: (p.2 ++ [])) = some (p, []) :=
        pair_clean hkp hvp rfl fun _ => rfl
      rw [List.append_nil] at hpair
      rw [render_singleton]
      exact .cons (by rw [skip_keyword hkp, hpair]) (.nil rfl)
    | cons q ps =>
      rw [render_cons_cons]
      have hrest : Reads (render (q :: ps)) (q :: ps) :=
        ih (List.cons_ne_nil q ps) (fun r hr => hk r (List.mem_cons_of_mem p hr))
          (fun r hr => hempty r (List.mem_cons_of_mem p hr))
          fun r hr => hclean r (List.mem_cons_of_mem p hr)
      refine .cons ?_ hrest
      rw [skip_keyword hkp]
      exact pair_clean hkp hvp (bare_of_space rfl _) fun h => absurd h (hempty p (by simp))

/-! ### Reading back -/

variable {ps : List (Bytes × Bytes)}

theorem mem_of_lookup {k v : Bytes} (h : lookup ps k = some v) : (k, v) ∈ ps := by
  obtain ⟨p, hp, rfl⟩ := Option.map_eq_some_iff.1 h
  obtain rfl : p.1 = k := by simpa using List.find?_some hp
  exact List.mem_reverse.1 (List.mem_of_find?_eq_some hp)

/-- If no keyword occurs twice, every pair counts. -/
theorem lookup_of_mem (hnodup : (ps.map Prod.fst).Nodup) {k v : Bytes} (h : (k, v) ∈ ps) :
    lookup ps k = some v := by
  obtain ⟨p, hp⟩ : ∃ p, ps.reverse.find? (fun p => p.1 = k) = some p := by
    refine Option.isSome_iff_exists.1 (List.find?_isSome.2 ⟨(k, v), List.mem_reverse.2 h, ?_⟩)
    simp
  have hkey : p.1 = k := by simpa using List.find?_some hp
  have hmem : p ∈ ps := List.mem_reverse.1 (List.mem_of_find?_eq_some hp)
  obtain rfl : p = (k, v) := List.inj_on_of_nodup_map hnodup hmem h hkey
  rw [lookup, hp, Option.map_some]

theorem cString_of_ne_zero {s : Bytes} (h : ∀ b ∈ s, b ≠ 0) : cString s = s :=
  List.takeWhile_eq_self_iff.2 fun b hb => decide_eq_true (h b hb)

/-- What is written has no zero byte if keywords and values have none. -/
theorem render_ne_zero (hk : ∀ p ∈ ps, IsKeyword p.1) (hclean : ∀ p ∈ ps, Clean p.2) :
    ∀ b ∈ render ps, b ≠ 0 := by
  induction ps with
  | nil => simp [render]
  | cons p ps ih =>
    have hfirst : ∀ b ∈ p.1 ++ equals :: p.2, b ≠ 0 := by
      intro b hb
      rcases List.mem_append.1 hb with hb | hb
      · exact ((hk p (by simp)).2 b hb).2
      · rcases List.mem_cons.1 hb with rfl | hb
        · decide
        · exact ((hclean p (by simp)).1 b hb).2.2
    cases ps with
    | nil =>
      rw [render_singleton]
      exact hfirst
    | cons q ps =>
      intro b hb
      rw [render_cons_cons, ← List.cons_append, ← List.append_assoc] at hb
      rcases List.mem_append.1 hb with hb | hb
      · exact hfirst b hb
      · rcases List.mem_cons.1 hb with rfl | hb
        · decide
        · exact ih (fun r hr => hk r (List.mem_cons_of_mem p hr))
            (fun r hr => hclean r (List.mem_cons_of_mem p hr)) b hb

/-- **Pairs that are written without quotes and escapes are read back exactly if no value needs
them.** -/
theorem yields_render_iff (hne : ps ≠ []) (hnodup : (ps.map Prod.fst).Nodup)
    (hk : ∀ p ∈ ps, IsKeyword p.1) (hempty : ∀ p ∈ ps.dropLast, p.2 ≠ []) :
    Yields (render ps) ps ↔ ∀ p ∈ ps, Clean p.2 := by
  constructor
  · rintro ⟨qs, hreads, hlookup⟩
    have hsubset : ps ⊆ qs := by
      rintro ⟨k, v⟩ hp
      refine mem_of_lookup ?_
      rw [hlookup, lookup_of_mem hnodup hp]
    -- the pairs that are read are no longer than the string, and those wanted are among them
    have hwritten := length_render hne
    have hcut : (cString (render ps)).length ≤ (render ps).length :=
      (List.takeWhile_prefix _).length_le
    have hwanted : cost ps ≤ cost qs := by
      obtain ⟨ps', hperm, hsub⟩ := (List.Nodup.of_map _ hnodup).subperm hsubset
      rw [← cost_perm hperm]
      exact cost_le_of_sublist hsub
    obtain ⟨hle, htight⟩ := hreads.cost_le fun b hb => by simpa using List.mem_takeWhile_imp hb
    exact fun p hp => htight (by omega) p (hsubset hp)
  · intro hclean
    refine ⟨ps, ?_, fun k => rfl⟩
    rw [cString_of_ne_zero (render_ne_zero hk hclean)]
    exact reads_render hne hk hempty hclean

end Conninfo

end GatewayPoc

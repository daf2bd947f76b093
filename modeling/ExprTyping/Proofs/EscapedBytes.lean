import ExprTyping.Value
import Mathlib.Logic.Function.Basic

namespace ExprTyping

namespace Text.Octal

theorem toNat_ofNat_of_lt {n : Nat} (h : n < 0x80) : (Char.ofNat n).toNat = n := by
  have hvalid : n.isValidChar := .inl (by omega)
  have hof : Char.ofNat n = Char.ofNatAux n hvalid := dif_pos hvalid
  rw [hof]
  rfl

theorem toNat_digit (n : Nat) : (digit n).toNat = n % 8 + 48 := toNat_ofNat_of_lt (by omega)

theorem digit_ne {c : Char} (n : Nat) (hc : c.toNat < 48 ∨ 55 < c.toNat) : digit n ≠ c := by
  rintro rfl
  rw [toNat_digit] at hc
  omega

theorem digit?_digit (n : Nat) : digit? (digit n) = some (n % 8) := by
  have hle : '0' ≤ digit n ∧ digit n ≤ '7' := by
    have htoNat : (digit n).val.toNat = n % 8 + 48 := toNat_digit n
    simp only [Char.le_def, UInt32.le_iff_toNat_le, htoNat]
    exact ⟨by simp, by simp; omega⟩
  simp [digit?, hle, toNat_digit]

inductive Written : UInt8 → List Char → Prop
  | quote : Written 0x22 ['\\', '"']
  | backslash : Written 0x5C ['\\', '\\']
  | visible {b : UInt8} {c : Char} : c.toNat = b.toNat → 0x20 ≤ c.toNat → c.toNat ≤ 0x7E →
      c ≠ '"' → c ≠ '\\' → Written b [c]
  | octal (b : UInt8) :
      Written b ['\\', digit (b.toNat / 64), digit (b.toNat / 8), digit b.toNat]

theorem written_escape (b : UInt8) : Written b (escape b) := by
  rw [escape]
  split
  · next h => exact h ▸ .quote
  split
  · next h => exact h ▸ .backslash
  split
  · next hquote hbackslash h =>
    simp only [Bool.and_eq_true, decide_eq_true_eq, UInt8.le_iff_toNat_le] at h
    obtain ⟨hlo, hhi⟩ := h
    have htoNat : (Char.ofNat b.toNat).toNat = b.toNat := by
      refine toNat_ofNat_of_lt (Nat.lt_of_le_of_lt hhi ?_)
      decide
    have hne : ∀ c : Char, b.toNat ≠ c.toNat → Char.ofNat b.toNat ≠ c := by
      rintro _ hb rfl
      exact hb htoNat.symm
    refine .visible htoNat ?_ ?_ (hne _ fun hb => ?_) (hne _ fun hb => ?_)
    · rwa [htoNat]
    · rwa [htoNat]
    · exact hquote (UInt8.toNat_inj.1 hb)
    · exact hbackslash (UInt8.toNat_inj.1 hb)
  · exact .octal b

theorem unescape_digits (x y z : Nat) (rest : List Char) :
    unescape ('\\' :: digit x :: digit y :: digit z :: rest) =
      (unescape rest).map (UInt8.ofNat (64 * (x % 8) + 8 * (y % 8) + z % 8) :: ·) := by
  have hquote : digit x ≠ '"' := digit_ne x (by decide)
  have hbackslash : digit x ≠ '\\' := digit_ne x (by decide)
  rw [unescape]
  · simp only [digit?_digit]
    cases unescape rest <;> rfl
  · exact hquote
  · exact hbackslash

variable {b : UInt8} {cs : List Char}

theorem Written.unescape_append (h : Written b cs) (rest : List Char) :
    unescape (cs ++ rest) = (unescape rest).map (b :: ·) := by
  cases h with
  | quote => rfl
  | backslash => rfl
  | visible hc _ _ _ hbackslash => simp [unescape, hbackslash, hc]
  | octal =>
    have hvalue : 64 * (b.toNat / 64 % 8) + 8 * (b.toNat / 8 % 8) + b.toNat % 8 = b.toNat := by
      have hlt := b.toNat_lt
      omega
    simp only [List.cons_append, List.nil_append, unescape_digits, hvalue, UInt8.ofNat_toNat]

theorem unescape_escapeAll (bs : List UInt8) : unescape (escapeAll bs) = some bs := by
  induction bs with
  | nil => rfl
  | cons b bs ih =>
    rw [escapeAll, List.flatMap_cons, (written_escape b).unescape_append, ← escapeAll, ih]
    rfl

theorem Written.bounds (h : Written b cs) : ∀ c ∈ cs, 0x20 ≤ c.toNat ∧ c.toNat ≤ 0x7E := by
  have hdigit : ∀ n, 0x20 ≤ (digit n).toNat ∧ (digit n).toNat ≤ 0x7E := by
    intro n
    rw [toNat_digit]
    omega
  cases h with
  | quote => simp
  | backslash => simp
  | visible _ hlo hhi => simpa using ⟨hlo, hhi⟩
  | octal => simp [hdigit]

/-- Every quote stands right behind a backslash. -/
def QuotesEscaped (cs : List Char) : Prop :=
  ∀ before after, cs = before ++ '"' :: after → before.getLast? = some '\\'

theorem quotesEscaped_of_not_mem (h : '"' ∉ cs) : QuotesEscaped cs := by
  rintro before after rfl
  simp at h

theorem QuotesEscaped.append {ds : List Char} (hcs : QuotesEscaped cs) (hds : QuotesEscaped ds) :
    QuotesEscaped (cs ++ ds) := by
  intro before after h
  rcases List.append_eq_append_iff.1 h with ⟨as, rfl, hd⟩ | ⟨as, hc, hd⟩
  · rw [List.getLast?_append, hds as after hd, Option.some_or]
  · cases as with
    | nil => cases hds [] after hd.symm
    | cons a as =>
      obtain ⟨rfl, -⟩ := List.cons.inj hd
      exact hcs before as hc

theorem Written.quotesEscaped (h : Written b cs) : QuotesEscaped cs := by
  have hdigit : ∀ n, '"' ≠ digit n := fun n => (digit_ne n (by decide)).symm
  cases h with
  | quote =>
    intro before after h
    cases before with
    | nil => simp at h
    | cons c before =>
      cases before with
      | nil => exact congrArg some (List.cons.inj h).1.symm
      | cons d before => simp at h
  | backslash => exact quotesEscaped_of_not_mem (by decide)
  | visible _ _ _ hc => exact quotesEscaped_of_not_mem (by simpa using hc.symm)
  | octal => exact quotesEscaped_of_not_mem (by simp [hdigit])

theorem mem_escapeAll_bounds (bs : List UInt8) :
    ∀ c ∈ escapeAll bs, 0x20 ≤ c.toNat ∧ c.toNat ≤ 0x7E := by
  intro c hc
  obtain ⟨b, -, hc⟩ := List.mem_flatMap.1 hc
  exact (written_escape b).bounds c hc

theorem quotesEscaped_escapeAll (bs : List UInt8) : QuotesEscaped (escapeAll bs) := by
  induction bs with
  | nil => exact quotesEscaped_of_not_mem List.not_mem_nil
  | cons b bs ih =>
    rw [escapeAll, List.flatMap_cons]
    exact (written_escape b).quotesEscaped.append ih

end Text.Octal

namespace Value

open Text.Octal

def readBytes? (s : String) : Option (List UInt8) :=
  match s.toList with
  | 'b' :: '"' :: cs => if cs.getLast? = some '"' then unescape cs.dropLast else none
  | _ => none

theorem toList_text_bytes (bs : List UInt8) :
    (bytes bs).text.toList = 'b' :: '"' :: (escapeAll bs ++ ['"']) := by
  simp [text]

theorem readBytes?_text (bs : List UInt8) : readBytes? (bytes bs).text = some bs := by
  rw [readBytes?, toList_text_bytes]
  simp [unescape_escapeAll]

/-- Bytes can be read off their text, so that no two sequences of bytes have the same text. Between
its quotes the text is visible, with a backslash before each quote. -/
theorem text_bytes_decodable :
    (∀ bs, readBytes? (bytes bs).text = some bs) ∧
    (Function.Injective fun bs => (bytes bs).text) ∧
    ∀ bs, ∃ cs, (bytes bs).text.toList = 'b' :: '"' :: (cs ++ ['"']) ∧
      (∀ c ∈ cs, 0x20 ≤ c.toNat ∧ c.toNat ≤ 0x7E) ∧
      ∀ before after, cs = before ++ '"' :: after → before.getLast? = some '\\' := by
  refine ⟨readBytes?_text, fun bs bs' h => ?_, fun bs => ?_⟩
  · have hread : readBytes? (bytes bs).text = readBytes? (bytes bs').text := congrArg readBytes? h
    rw [readBytes?_text, readBytes?_text] at hread
    exact Option.some.inj hread
  · exact ⟨escapeAll bs, toList_text_bytes bs, mem_escapeAll_bounds bs, quotesEscaped_escapeAll bs⟩

theorem text_bytes_decodable_of_digits :
    let bs : List UInt8 := [0x22, 0x5C, 0x31, 0x32, 0x33, 0x00, 0x34]
    (bytes bs).text = "b\"\\\"\\\\123\\0004\"" ∧
      readBytes? "b\"\\\"\\\\123\\0004\"" = some bs := by
  intro bs
  have htext : (bytes bs).text = "b\"\\\"\\\\123\\0004\"" := by decide
  exact ⟨htext, htext ▸ text_bytes_decodable.1 bs⟩

end Value

end ExprTyping

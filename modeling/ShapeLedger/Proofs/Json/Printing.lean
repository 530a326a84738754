/-
Printed texts against the grammar: what is printed for a string is a literal of that string. Literals are
read in one way only, so different strings are never printed alike.
-/
import ShapeLedger.Json.Printer
import ShapeLedger.Proofs.Json.StringLiteral

namespace ShapeLedger.Json

open Ascii Grammar

/-- The bytes of characters. -/
def utf8 (cs : List Char) : Bytes := cs.flatMap (fun c => Utf8.encodeCodePoint c.toNat)

theorem utf8_append (cs ds : List Char) : utf8 (cs ++ ds) = utf8 cs ++ utf8 ds := List.flatMap_append

/-! ## Strings -/

theorem hexValue?_hexDigit : ∀ n < 16, utf8 [hexDigit n] = [UInt8.ofNat (hexDigit n).toNat] ∧
    hexValue? (UInt8.ofNat (hexDigit n).toNat) = some n := by
  decide

/-- An escape with two zeros in front writes a code point of two digits. -/
theorem hex_hexDigit {n : Nat} (h : n < 256) :
    Hex (utf8 ['0', '0', hexDigit (n / 16), hexDigit (n % 16)]) n := by
  obtain ⟨hhigh, hvhigh⟩ := hexValue?_hexDigit (n / 16) (by omega)
  obtain ⟨hlow, hvlow⟩ := hexValue?_hexDigit (n % 16) (by omega)
  have hbytes : utf8 ['0', '0', hexDigit (n / 16), hexDigit (n % 16)] =
      [zero, zero, UInt8.ofNat (hexDigit (n / 16)).toNat, UInt8.ofNat (hexDigit (n % 16)).toNat] := by
    have hsplit : ['0', '0', hexDigit (n / 16), hexDigit (n % 16)] =
        ['0', '0'] ++ ([hexDigit (n / 16)] ++ [hexDigit (n % 16)]) := rfl
    rw [hsplit, utf8_append, utf8_append, hhigh, hlow]
    rfl
  have hzero : hexValue? zero = some 0 := by decide
  have hx := Hex.mk hzero hzero hvhigh hvlow
  rwa [← hbytes, show ((0 * 16 + 0) * 16 + n / 16) * 16 + n % 16 = n by omega] at hx

/-- What is printed for a character is one way to write it. -/
theorem character_escape (c : Char) : Character (utf8 (escape c)) c := by
  have letter {d e : Char} (hm : (UInt8.ofNat e.toNat, d) ∈ letters)
      (hb : utf8 ['\\', e] = [backslash, UInt8.ofNat e.toNat]) : Character (utf8 ['\\', e]) d :=
    hb ▸ .escape (.letter hm)
  unfold escape
  split
  · next h => subst h; exact letter (by decide) (by decide)
  · next hq =>
    split
    · next h => subst h; exact letter (by decide) (by decide)
    · next hb =>
      split
      · next hs =>
        have hplain : Character (Utf8.encodeCodePoint c.toNat) c := .plain hq hb hs
        simpa [utf8] using hplain
      · next hs =>
        -- below the space five characters have a letter of their own
        have named {d : Char} (hd : c.toNat = d.toNat) : c = d := Char.toNat_inj.1 hd
        split
        · next h => rw [named (d := '\x08') h]; exact letter (by decide) (by decide)
        · split
          · next h => rw [named (d := '\t') h]; exact letter (by decide) (by decide)
          · split
            · next h => rw [named (d := '\n') h]; exact letter (by decide) (by decide)
            · split
              · next h => rw [named (d := '\x0C') h]; exact letter (by decide) (by decide)
              · split
                · next h => rw [named (d := '\r') h]; exact letter (by decide) (by decide)
                · have hlt : c.toNat < 256 := by
                    have : ¬ 0x20 ≤ c.toNat := hs
                    omega
                  exact .escape (.codePoint (hex_hexDigit hlt))

theorem characters_escape (cs : List Char) : Characters (utf8 (cs.flatMap escape)) cs := by
  induction cs with
  | nil => exact .nil
  | cons c cs ih =>
    rw [List.flatMap_cons, utf8_append]
    exact .cons (character_escape c) ih

theorem quoted_denotes (s : String) : Quoted (utf8 (quoted s)) s := by
  have hsplit : quoted s = ['"'] ++ (s.toList.flatMap escape ++ ['"']) := rfl
  rw [hsplit, utf8_append, utf8_append]
  exact .mk (characters_escape s.toList)

/-- A literal is what the reader of strings takes whole. -/
theorem Grammar.quoted_iff {u : Bytes} {t : String} :
    Quoted (quote :: u) t ↔ readString u = .ok (t, []) := by
  simp [readString_eq_ok]

/-- A literal denotes one string. -/
theorem Grammar.Quoted.unique {q : Bytes} {s t : String} (hs : Quoted q s) (ht : Quoted q t) : s = t := by
  obtain ⟨u, rfl⟩ : ∃ u, q = quote :: u := by cases hs; exact ⟨_, rfl⟩
  have he := (quoted_iff.1 hs).symm.trans (quoted_iff.1 ht)
  exact (Prod.mk.inj (Except.ok.inj he)).1

theorem quoted_injective : Function.Injective quoted := fun s t h =>
  (h ▸ quoted_denotes s : Quoted (utf8 (quoted t)) s).unique (quoted_denotes t)

end ShapeLedger.Json

import Mathlib.Data.List.Basic
import OperationHooks.Text.Wide

set_option autoImplicit false

namespace OperationHooks.Text.Wide

theorem ofNat_ascii {c : Char} (h : ∀ b ∈ String.utf8EncodeChar c, b < 0x80) :
    (String.utf8EncodeChar c).map (fun b => Char.ofNat b.toNat) = [c] := by
  by_cases hone : c.val.toNat ≤ 127
  · have hencoded : String.utf8EncodeChar c = [UInt8.ofNat c.val.toNat] := if_pos hone
    have hbyte : (UInt8.ofNat c.val.toNat).toNat = c.toNat := by
      rw [UInt8.toNat_ofNat']
      exact Nat.mod_eq_of_lt (by omega)
    rw [hencoded,List.map_singleton,hbyte,Char.ofNat_toNat]
  · have hlast : UInt8.ofNat (c.val.toNat % 64 + 128) ∈ String.utf8EncodeChar c := by
      simp only [String.utf8EncodeChar]
      rw [if_neg hone]
      split
      · simp
      · split <;> simp
    have hsmall := UInt8.lt_iff_toNat_lt.1 (h _ hlast)
    rw [UInt8.toNat_ofNat',Nat.mod_eq_of_lt (by omega)] at hsmall
    exact absurd hsmall (by simp)

theorem charsOf_eq (s : String) : charsOf s = s.toList := by
  have hbytes : s.toByteArray.data.toList = s.toList.flatMap String.utf8EncodeChar := by
    rw [← String.utf8Encode_toList,List.utf8Encode,List.toList_data_toByteArray]
  rw [charsOf,hbytes]
  split
  · rename_i hascii
    rw [List.all_flatMap,List.all_eq_true] at hascii
    rw [List.map_flatMap]
    calc s.toList.flatMap (fun c => (String.utf8EncodeChar c).map fun b => Char.ofNat b.toNat)
      _ = s.toList.flatMap fun c => [c] :=
        List.flatMap_congr fun c hc => ofNat_ascii (by simpa using hascii c hc)
      _ = s.toList := List.flatMap_singleton' _
  · rfl

theorem ofString_eq (s : String) : ofString s = ofChars s.toList := by rw [ofString,charsOf_eq]

theorem ofString_ofList (cs : List Char) : ofString (String.ofList cs) = ofChars cs := by
  rw [ofString_eq,String.toList_ofList]

theorem ofChars_append (cs cs' : List Char) : ofChars (cs ++ cs') = ofChars cs ++ ofChars cs' :=
  List.map_append

theorem charsFrom_ofChars (cs : List Char) (position : Nat) :
    charsFrom position (ofChars cs) = .ok cs := by
  induction cs generalizing position with
  | nil => rfl
  | cons c cs ih => exact congrArg (Except.map (c :: ·)) (ih (position + 1))

theorem eq_ofChars {w : Wide} {position : Nat} {cs : List Char}
    (h : charsFrom position w = .ok cs) :
    w = ofChars cs := by
  induction w generalizing position cs with
  | nil => cases h; rfl
  | cons p rest ih =>
    cases p with
    | half n => cases h
    | char c =>
      rw [charsFrom] at h
      cases hrest : charsFrom (position + 1) rest with
      | error e => rw [hrest] at h; cases h
      | ok cs' =>
        rw [hrest] at h
        cases h
        rw [ih hrest]
        rfl

theorem ofString_inj {s s' : String} : ofString s = ofString s' ↔ s = s' := by
  refine ⟨fun h => String.toList_injective ?_,congrArg ofString⟩
  have hc := charsFrom_ofChars s.toList 0
  rw [← ofString_eq,h,ofString_eq,charsFrom_ofChars] at hc
  exact (Except.ok.inj hc).symm

@[simp] theorem toText_ofChars (cs : List Char) : (ofChars cs).toText = .ok (String.ofList cs) := by
  rw [toText,charsFrom_ofChars]

/-- The texts that can be encoded are those of characters alone. -/
theorem toText_eq_ok {w : Wide} {text : String} : w.toText = .ok text ↔ w = ofString text := by
  constructor
  · intro h
    unfold toText at h
    split at h
    · rename_i cs hcs
      cases h
      rw [ofString_ofList]
      exact eq_ofChars hcs
    · cases h
  · rintro rfl
    rw [ofString_eq,toText_ofChars,String.ofList_toList]

end OperationHooks.Text.Wide

import Mathlib.Data.List.Basic

-- The bytes of a text.
namespace Utf8

def encode (s : String) : List UInt8 :=
  s.toList.flatMap String.utf8EncodeChar

-- The text of some bytes, if they are valid.
def decode? (bytes : List UInt8) : Option String :=
  String.fromUTF8? bytes.toByteArray

variable {s s₁ s₂ : String} {bytes : List UInt8}

theorem toByteArray_encode (s : String) : (encode s).toByteArray = s.toByteArray := by
  rw [← String.utf8Encode_toList, encode, List.utf8Encode]

theorem decode?_encode (s : String) : decode? (encode s) = some s := by
  rw [decode?, toByteArray_encode, String.fromUTF8?, dif_pos s.isValidUTF8]
  rfl

theorem decode?_eq_some_iff : decode? bytes = some s ↔ bytes = encode s := by
  refine ⟨fun h => ?_, fun h => h ▸ decode?_encode s⟩
  rw [decode?, String.fromUTF8?] at h
  split at h
  case isFalse => cases h
  case isTrue =>
    cases h
    refine List.toByteArray_inj.mp ?_
    rw [toByteArray_encode]
    rfl

@[simp]
theorem encode_append (s₁ s₂ : String) : encode (s₁ ++ s₂) = encode s₁ ++ encode s₂ := by
  simp [encode]

theorem encode_inj : encode s₁ = encode s₂ ↔ s₁ = s₂ := by
  refine ⟨fun h => ?_, congrArg encode⟩
  exact Option.some.inj <| (decode?_encode s₁).symm.trans <| h ▸ decode?_encode s₂

theorem length_encode (h : ∀ c ∈ s.toList, c.utf8Size = 1) : (encode s).length = s.toList.length := by
  rw [encode]
  generalize s.toList = l at h ⊢
  induction l
  case nil => rfl
  case cons c l ih =>
    have ⟨head, tail⟩ := List.forall_mem_cons.mp h
    rw [List.flatMap_cons, List.length_append, String.length_utf8EncodeChar, head, ih tail, List.length_cons,
      Nat.add_comm]

theorem length_encode_replicate {c : Char} {n : Nat} :
    (encode (.ofList (List.replicate n c))).length = n * c.utf8Size := by
  rw [encode, String.toList_ofList, List.length_flatMap]
  simp

-- The bytes of a character which is not in ASCII are not in ASCII either.
theorem mem_utf8EncodeChar_iff {c : Char} {b : UInt8} (hb : b.toNat < 128) :
    b ∈ String.utf8EncodeChar c ↔ c.toNat = b.toNat := by
  have size := c.val.toNat_lt
  have hc : c.toNat = c.val.toNat := rfl
  rw [String.utf8EncodeChar]
  split_ifs <;>
  · simp only [List.mem_cons, List.not_mem_nil, or_false, ← UInt8.toNat_inj, UInt8.toNat_ofNat', hc]
    omega

theorem mem_encode_iff {c : Char} (hc : c.toNat < 128) {b : UInt8} (hb : b.toNat = c.toNat) :
    b ∈ encode s ↔ c ∈ s.toList := by
  rw [encode, List.mem_flatMap]
  constructor
  case mp =>
    rintro ⟨c', hm, h⟩
    rw [mem_utf8EncodeChar_iff (hb ▸ hc), hb, Char.toNat_inj] at h
    exact h ▸ hm
  case mpr => exact fun h => ⟨c, h, mem_utf8EncodeChar_iff (hb ▸ hc) |>.mpr hb.symm⟩

end Utf8

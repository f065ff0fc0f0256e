import Unbundle.Bytes

namespace Unbundle.Cipher.Substitution

/-- The images of sixteen bytes in each row, written as one number. -/
def forwardRows : List Nat :=
  [0x637C777BF26B6FC53001672BFED7AB76, 0xCA82C97DFA5947F0ADD4A2AF9CA472C0,
   0xB7FD9326363FF7CC34A5E5F171D83115, 0x04C723C31896059A071280E2EB27B275,
   0x09832C1A1B6E5AA0523BD6B329E32F84, 0x53D100ED20FCB15B6ACBBE394A4C58CF,
   0xD0EFAAFB434D338545F9027F503C9FA8, 0x51A3408F929D38F5BCB6DA2110FFF3D2,
   0xCD0C13EC5F974417C4A77E3D645D1973, 0x60814FDC222A908846EEB814DE5E0BDB,
   0xE0323A0A4906245CC2D3AC629195E479, 0xE7C8376D8DD54EA96C56F4EA657AAE08,
   0xBA78252E1CA6B4C6E8DD741F4BBD8B8A, 0x703EB5664803F60E613557B986C11D9E,
   0xE1F8981169D98E949B1E87E9CE5528DF, 0x8CA1890DBFE6426841992D0FB054BB16]

def backwardRows : List Nat :=
  [0x52096AD53036A538BF40A39E81F3D7FB, 0x7CE339829B2FFF87348E4344C4DEE9CB,
   0x547B9432A6C2233DEE4C950B42FAC34E, 0x082EA16628D924B2765BA2496D8BD125,
   0x72F8F66486689816D4A45CCC5D65B692, 0x6C704850FDEDB9DA5E154657A78D9D84,
   0x90D8AB008CBCD30AF7E45805B8B34506, 0xD02C1E8FCA3F0F02C1AFBD0301138A6B,
   0x3A9111414F67DCEA97F2CFCEF0B4E673, 0x96AC7422E7AD3585E2F937E81C75DF6E,
   0x47F11A711D29C5896FB7620EAA18BE1B, 0xFC563E4BC6D279209ADBC0FE78CD5AF4,
   0x1FDDA8338807C731B11210592780EC5F, 0x60517FA919B54A0D2DE57A9F93C99CEF,
   0xA0E03B4DAE2AF5B0C8EBBB3C83539961, 0x172B047EBA77D626E169146355210C7D]

/-- The byte at a place of a table that is written in rows. -/
def pick (rows : List Nat) (place : Nat) : UInt8 :=
  (rows.getD (place / 16) 0 >>> (8 * (15 - place % 16))).toUInt8

def forwardTable : Vector UInt8 256 := Vector.ofFn fun i => pick forwardRows i

def backwardTable : Vector UInt8 256 := Vector.ofFn fun i => pick backwardRows i

def forward (b : UInt8) : UInt8 :=
  have : b.toNat < 256 := UInt8.toNat_lt b
  forwardTable[b.toNat]

def backward (b : UInt8) : UInt8 :=
  have : b.toNat < 256 := UInt8.toNat_lt b
  backwardTable[b.toNat]

private theorem forward_eq (b : UInt8) : forward b = pick forwardRows b.toNat := by
  simp [forward, forwardTable]

private theorem backward_eq (b : UInt8) : backward b = pick backwardRows b.toNat := by
  simp [backward, backwardTable]

attribute [irreducible] forward backward

private theorem pick_pick :
    ∀ i : Fin 256, (pick backwardRows (pick forwardRows i).toNat).toNat = i := by
  decide +kernel

theorem backward_forward (b : UInt8) : backward (forward b) = b := by
  rw [forward_eq, backward_eq]
  exact UInt8.toNat_inj.mp (pick_pick ⟨b.toNat, UInt8.toNat_lt b⟩)

end Unbundle.Cipher.Substitution

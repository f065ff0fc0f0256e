import Unbundle.Cipher.Block

namespace Unbundle.Cipher.Aes

def keyLength : Nat := 32

/-- The constants of the key schedule, one for each whole key's length of columns. -/
def roundConstants : List UInt8 := [0x01, 0x02, 0x04, 0x08, 0x10, 0x20, 0x40]

/-- So many more columns before the given ones, which have the newest first and end with a
constant step. -/
def extendBy : Nat → List Column → List Column
  | 0, words => words
  | count + 1, words =>
    extendBy count ((words.getD 7 ⟨0, 0, 0, 0⟩).add (words.getD 0 ⟨0, 0, 0, 0⟩) :: words)

/-- The next eight columns: the first goes through rotation, substitution and the constant, the
fifth through substitution alone. -/
def extend (words : List Column) (constant : UInt8) : List Column :=
  let last := (words.getD 0 ⟨0, 0, 0, 0⟩).rotate.map Substitution.forward
  let first := ((words.getD 7 ⟨0, 0, 0, 0⟩).add last).add ⟨constant, 0, 0, 0⟩
  let words := extendBy 3 (first :: words)
  let fifth := (words.getD 7 ⟨0, 0, 0, 0⟩).add
    ((words.getD 0 ⟨0, 0, 0, 0⟩).map Substitution.forward)
  extendBy 3 (fifth :: words)

/-- The keys of the rounds: one before the first round, and one after each of the fourteen. -/
def roundKeys (key : Bytes) : List Block :=
  (blocks (roundConstants.foldl extend (columns key).reverse).reverse).take 15

def encryptRounds : List Block → Block → Block
  | [], s => s
  | [key], s => s.substitute.shift.add key
  | key :: keys, s => encryptRounds keys (s.substitute.shift.mix.add key)

def decryptRounds : List Block → Block → Block
  | [], s => s
  | [key], s => (s.add key).unshift.unsubstitute
  | key :: keys, s => ((decryptRounds keys s).add key).unmix.unshift.unsubstitute

private theorem decryptRounds_encryptRounds (keys : List Block) (s : Block) :
    decryptRounds keys (encryptRounds keys s) = s := by
  fun_induction encryptRounds keys s with
  | case1 => rfl
  | case2 key s =>
    simp [decryptRounds, Block.add_add, Block.unshift_shift, Block.unsubstitute_substitute]
  | case3 key keys s more ih =>
    cases keys with
    | nil => exact absurd rfl more
    | cons next keys =>
      simp [decryptRounds, ih, Block.add_add, Block.unmix_mix, Block.unshift_shift,
        Block.unsubstitute_substitute]

/-- With no round keys a block stays as it is. -/
def encryptBlock : List Block → Block → Block
  | [], s => s
  | key :: keys, s => encryptRounds keys (s.add key)

def decryptBlock : List Block → Block → Block
  | [], s => s
  | key :: keys, s => (decryptRounds keys s).add key

theorem decryptBlock_encryptBlock (keys : List Block) (s : Block) :
    decryptBlock keys (encryptBlock keys s) = s := by
  cases keys with
  | nil => rfl
  | cons key keys =>
    simp [decryptBlock, encryptBlock, decryptRounds_encryptRounds, Block.add_add]

end Unbundle.Cipher.Aes

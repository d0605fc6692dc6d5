import BootFirmware.Uboot.CTypes

/-
  The checksum and crypto algorithms that sign an image, and
  how the name of a pair of them is looked up.

  Key definitions include:
    * `ChecksumAlgo` and `CryptoAlgo`
    * `checksumAlgos` and `cryptoAlgos`
    * `imageGetChecksumAlgo` and `imageGetCryptoAlgo`

  The main results are:
    * `checksumAlgos_fit`
-/

----
-- Tables
----

namespace Uboot.Image

/- `struct checksum_algo`, without its functions. -/
structure ChecksumAlgo where
  name : List UInt8
  checksumLen : Nat
  derLen : Nat
  derPrefix : List UInt8
deriving DecidableEq, Repr

/- `struct crypto_algo`, without its functions. -/
structure CryptoAlgo where
  name : List UInt8
  keyLen : Nat
deriving DecidableEq, Repr

def SHA1_SUM_LEN : Nat := 20
def SHA1_DER_LEN : Nat := 15
def SHA256_SUM_LEN : Nat := 32
def SHA256_DER_LEN : Nat := 19
def RSA2048_BYTES : Nat := 2048 / 8
def RSA4096_BYTES : Nat := 4096 / 8

def sha1DerPrefix : List UInt8 :=
  [0x30, 0x21, 0x30, 0x09, 0x06, 0x05, 0x2b, 0x0e, 0x03, 0x02, 0x1a, 0x05, 0x00, 0x04, 0x14]

def sha256DerPrefix : List UInt8 :=
  [0x30, 0x31, 0x30, 0x0d, 0x06, 0x09, 0x60, 0x86, 0x48, 0x01, 0x65, 0x03, 0x04, 0x02, 0x01, 0x05,
    0x00, 0x04, 0x20]

/- The entries for `sha1` and `sha256`. -/
def checksumAlgos : List ChecksumAlgo :=
  [{ name := [0x73, 0x68, 0x61, 0x31]
     checksumLen := SHA1_SUM_LEN
     derLen := SHA1_DER_LEN
     derPrefix := sha1DerPrefix },
    { name := [0x73, 0x68, 0x61, 0x32, 0x35, 0x36]
      checksumLen := SHA256_SUM_LEN
      derLen := SHA256_DER_LEN
      derPrefix := sha256DerPrefix }]

/- The entries for `rsa2048` and `rsa4096`. -/
def cryptoAlgos : List CryptoAlgo :=
  [{ name := [0x72, 0x73, 0x61, 0x32, 0x30, 0x34, 0x38]
     keyLen := RSA2048_BYTES },
    { name := [0x72, 0x73, 0x61, 0x34, 0x30, 0x39, 0x36]
      keyLen := RSA4096_BYTES }]

----
-- Lookup
----

def comma : UInt8 := 0x2c

/- The name starts the full name and a comma follows it. -/
def imageGetChecksumAlgo (fullName : List UInt8) : Option ChecksumAlgo :=
  checksumAlgos.find? fun algo =>
    algo.name.isPrefixOf fullName && fullName[algo.name.length]? == some comma

/- What follows the first comma is the name. -/
def imageGetCryptoAlgo (fullName : List UInt8) : Option CryptoAlgo :=
  match fullName.dropWhile (· != comma) with
  | [] => none
  | _ :: name => cryptoAlgos.find? fun algo => algo.name == name

/-
  Every pair of algorithms leaves room for the padding, and a
  prefix is as long as its length says.
-/
theorem checksumAlgos_fit {algo : ChecksumAlgo} {crypto : CryptoAlgo}
    (hAlgo : algo ∈ checksumAlgos) (hCrypto : crypto ∈ cryptoAlgos) :
    algo.derPrefix.length = algo.derLen ∧ algo.checksumLen + algo.derLen ≤ 51 ∧
      256 ≤ crypto.keyLen ∧ crypto.keyLen ≤ 512 := by
  have hAlgos : ∀ a ∈ checksumAlgos,
      a.derPrefix.length = a.derLen ∧ a.checksumLen + a.derLen ≤ 51 := by decide
  have hCryptos : ∀ c ∈ cryptoAlgos, 256 ≤ c.keyLen ∧ c.keyLen ≤ 512 := by decide
  exact ⟨(hAlgos algo hAlgo).1, (hAlgos algo hAlgo).2, hCryptos crypto hCrypto⟩

example :
    imageGetChecksumAlgo [0x73, 0x68, 0x61, 0x31, 0x2c, 0x72, 0x73, 0x61] =
      checksumAlgos.head? := by decide

end Uboot.Image

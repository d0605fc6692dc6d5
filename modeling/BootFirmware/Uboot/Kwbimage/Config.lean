import BootFirmware.Uboot.CTypes

/-
  The configuration file of a kwbimage.

  A line is read into a buffer of 256 bytes, so that a longer
  one is read in parts.  What the secure header alone uses is
  kept as an element without a value.

  Key definitions include:
    * `linesOf`
    * `strtoul`
    * `Element`
    * `imageCreateConfigParse`
-/

----
-- Text
----

namespace Uboot.Kwbimage

def ascii (s : String) : List UInt8 :=
  s.toList.map fun c => .ofNat c.toNat

/- What `fgets` reads, line by line, with room for so much. -/
def linesOf : Nat → List UInt8 → List UInt8 → List (List UInt8)
  | _, line, [] => if line = [] then [] else [line.reverse]
  | room, line, c :: rest =>
    if c = 10 ∨ room ≤ 1 then
      (c :: line).reverse :: linesOf 255 [] rest
    else linesOf (room - 1) (c :: line) rest

def isDelimiter (c : UInt8) : Bool := c == 32 || c == 9

/- What `strtok_r` finds between blanks. -/
def tokens : List UInt8 → List UInt8 → List (List UInt8)
  | token, [] => if token = [] then [] else [token.reverse]
  | token, c :: rest =>
    if isDelimiter c then
      if token = [] then tokens [] rest
      else token.reverse :: tokens [] rest
    else tokens (c :: token) rest

----
-- Numbers
----

def isspace (c : UInt8) : Bool :=
  (9 ≤ c && c ≤ 13) || c == 32

def digitOf (c : UInt8) : Nat :=
  if 48 ≤ c ∧ c ≤ 57 then c.toNat - 48
  else if 97 ≤ c ∧ c ≤ 122 then c.toNat - 87
  else if 65 ≤ c ∧ c ≤ 90 then c.toNat - 55
  else 36

def digitsOf (base n : Nat) : List UInt8 → Nat
  | [] => n
  | c :: rest =>
    if digitOf c < base then
      digitsOf base (n * base + digitOf c) rest
    else n

/- A sign in front of a number, and the rest. -/
def signOf : List UInt8 → Bool × List UInt8
  | [] => (false, [])
  | c :: rest =>
    if c = 45 then (true, rest)
    else if c = 43 then (false, rest)
    else (false, c :: rest)

/- The prefix `0x` counts only in front of a digit. -/
def hexPrefix : List UInt8 → List UInt8
  | c :: x :: d :: rest =>
    if c = 48 ∧ (x = 120 ∨ x = 88) ∧ digitOf d < 16 then
      d :: rest
    else c :: x :: d :: rest
  | s => s

/- A number that is too large is the largest one. -/
def strtoul (s : List UInt8) (base : Nat) : Nat :=
  let (negative, s) := signOf (s.dropWhile isspace)
  let n := digitsOf base 0 (if base = 16 then hexPrefix s else s)
  if 2 ^ 64 ≤ n then 2 ^ 64 - 1
  else if negative then (2 ^ 64 - n) % 2 ^ 64
  else n

/- A `long` that is made an `int`. -/
def atoi (s : List UInt8) : Int :=
  let (negative, s) := signOf (s.dropWhile isspace)
  let n := digitsOf 10 0 s
  if negative then toInt (2 ^ 64 - min n (2 ^ 63))
  else toInt (min n (2 ^ 63 - 1))

----
-- Elements
----

inductive CfgType where
  | version
  | bootFrom
  | destAddr
  | execAddr
  | nandBlksz
  | nandBadblkLocation
  | nandEccMode
  | nandPagesz
  | binary
  | payload
  | data
  | baudrate
  | debug
  | kak
  | csk
  | cskIndex
  | jtagDelay
  | boxId
  | flashId
  | secCommonImg
  | secSpecializedImg
  | secBootDev
  | secFuseDump
deriving DecidableEq, Repr

def idStrs : List (String × CfgType) :=
  [("VERSION", .version), ("BOOT_FROM", .bootFrom), ("DEST_ADDR", .destAddr),
    ("EXEC_ADDR", .execAddr), ("NAND_BLKSZ", .nandBlksz),
    ("NAND_BADBLK_LOCATION", .nandBadblkLocation), ("NAND_ECC_MODE", .nandEccMode),
    ("NAND_PAGE_SIZE", .nandPagesz), ("BINARY", .binary), ("PAYLOAD", .payload), ("DATA", .data),
    ("BAUDRATE", .baudrate), ("DEBUG", .debug), ("KAK", .kak), ("CSK", .csk),
    ("CSK_INDEX", .cskIndex), ("JTAG_DELAY", .jtagDelay), ("BOX_ID", .boxId),
    ("FLASH_ID", .flashId), ("SEC_COMMON_IMG", .secCommonImg),
    ("SEC_SPECIALIZED_IMG", .secSpecializedImg), ("SEC_BOOT_DEV", .secBootDev),
    ("SEC_FUSE_DUMP", .secFuseDump)]

def bootModes : List (String × Nat) :=
  [("i2c", 0x4D), ("spi", 0x5A), ("nand", 0x8B), ("sata", 0x78), ("pex", 0x9C), ("uart", 0x69),
    ("sdio", 0xAE)]

def nandEccModes : List (String × Nat) :=
  [("default", 0), ("hamming", 1), ("rs", 2), ("disabled", 3)]

/- The value of a word in one of the tables. -/
def idOf {α : Type}
    (table : List (String × α))
    (word : List UInt8) : Option α :=
  (table.find? fun x => ascii x.1 = word).map (·.2)

inductive Element where
  | unknown
  | version (version : Int)
  | bootFrom (id : Nat)
  | nandBlksz (size : Nat)
  | nandBadblkLocation (location : Nat)
  | nandEccMode (id : Nat)
  | nandPagesz (size : Nat)
  | binary (file : List UInt8) (args : List Nat)
  | payload
  | data (raddr rdata : Nat)
  | baudrate (baudrate : Nat)
  | debug (debug : Nat)
  | other (type : CfgType)
deriving DecidableEq, Repr

/-
  A line without a word, or without a character before a NUL,
  makes the parser read what is not there.
-/
inductive ConfigError where
  | parameterMissing
  | invalidBootMedia
  | invalidNandEccMode
  | tooManyArguments
  | invalidNumberOfArguments
  | tooManyElements
  | noKeyword
  | noCharacter
deriving DecidableEq, Repr

----
-- The Parser
----

/- The words of a line that the keyword calls for. -/
def parseValues (type : CfgType) (value1 : List UInt8) (values : List (List UInt8)) :
    Except ConfigError Element :=
  match type with
  | .version => .ok (.version (atoi value1))
  | .bootFrom =>
    match idOf bootModes value1 with
    | none => .error .invalidBootMedia
    | some id => .ok (.bootFrom id)
  | .nandBlksz => .ok (.nandBlksz (u32 (strtoul value1 16)))
  | .nandBadblkLocation => .ok (.nandBadblkLocation (u32 (strtoul value1 16)))
  | .nandEccMode =>
    match idOf nandEccModes value1 with
    | none => .error .invalidNandEccMode
    | some id => .ok (.nandEccMode id)
  | .nandPagesz => .ok (.nandPagesz (u32 (strtoul value1 16)))
  | .binary =>
    -- The last of eight arguments is already one too many.
    if 8 ≤ values.length then .error .tooManyArguments
    else
      .ok (.binary value1 (values.map fun value => u32 (strtoul value 16)))
  | .payload => .ok .payload
  | .data =>
    match values with
    | [] => .error .invalidNumberOfArguments
    | value2 :: _ => .ok (.data (u32 (strtoul value1 16)) (u32 (strtoul value2 16)))
  | .baudrate => .ok (.baudrate (u32 (strtoul value1 10)))
  | .debug => .ok (.debug (u32 (strtoul value1 10)))
  | other => .ok (.other other)

def imageCreateConfigParseOneline (line : List UInt8) : Except ConfigError Element :=
  match tokens [] line with
  | [] => .error .noKeyword
  | keyword :: words =>
    match idOf idStrs keyword, words with
    | none, _ => .ok .unknown
    | some _, [] => .error .parameterMissing
    | some type, value1 :: values => parseValues type value1 values

def isNul (c : UInt8) : Bool := c == 0

/- The string in the buffer, without its final newline. -/
def parseLine (line : List UInt8) : Except ConfigError Element :=
  let s := line.takeWhile fun c => !isNul c
  if s = [] then .error .noCharacter
  else
    imageCreateConfigParseOneline (if s.getLast? = some 10 then s.dropLast else s)

/- Empty lines and comments do not count as elements. -/
def parseLines : List (List UInt8) → Nat → Except ConfigError (List Element)
  | [], _ => .ok []
  | line :: rest, cfgi =>
    if line.head? = some 10 ∨ line.head? = some 35 then
      parseLines rest cfgi
    else
      (parseLine line).bind fun element =>
        if 256 ≤ cfgi + 1 then .error .tooManyElements
        else (parseLines rest (cfgi + 1)).map (element :: ·)

def imageCreateConfigParse (file : List UInt8) : Except ConfigError (List Element) :=
  parseLines (linesOf 255 [] file) 0

example :
    imageCreateConfigParse (ascii "# DDR\nVERSION 1\nBINARY spl.bin 5b 0x68\n") =
      .ok [.version 1, .binary (ascii "spl.bin") [91, 104]] := by
  decide +kernel

end Uboot.Kwbimage

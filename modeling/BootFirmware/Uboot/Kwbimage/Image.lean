import BootFirmware.Lib.Words
import BootFirmware.Uboot.Kwbimage.Config

/-
  How a kwbimage is made.

  The host's words are little-endian.  A configuration without
  a key index has no secure header: that part is left out.  A
  call that writes outside a buffer has no result; neither has
  one that ends the program.

  Key definitions include:
    * `MainHdrV0` and `MainHdrV1`
    * `imageCreateV0` and `imageCreateV1`
    * `kwbimageGenerate` and `kwbimageSetHeader`
    * `kwbimageVerifyHeader`
-/

----
-- Structures
----

namespace Uboot.Kwbimage

def le16 (n : Nat) : List UInt8 := Words.toBytes 2 n

def le32 (n : Nat) : List UInt8 := Words.toBytes 4 n

def zeros (n : Nat) : List UInt8 := List.replicate n 0

def alignSup (x a : Nat) : Nat := (x + (a - 1)) / a * a

structure MainHdrV0 where
  blockid : UInt8
  nandeccmode : UInt8
  nandpagesize : Nat
  blocksize : Nat
  srcaddr : Nat
  destaddr : Nat
  execaddr : Nat
  ext : UInt8
  checksum : UInt8

def MainHdrV0.bytes (hdr : MainHdrV0) : List UInt8 :=
  [hdr.blockid, hdr.nandeccmode] ++ le16 hdr.nandpagesize ++
    le32 hdr.blocksize ++ le32 0 ++ le32 hdr.srcaddr ++ le32 hdr.destaddr ++ le32 hdr.execaddr ++
    [0, 0, 0, 0, 0, 0, hdr.ext, hdr.checksum]

structure MainHdrV1 where
  blockid : UInt8
  flags : UInt8
  blocksize : Nat
  version : UInt8
  headerszMsb : UInt8
  headerszLsb : Nat
  srcaddr : Nat
  destaddr : Nat
  execaddr : Nat
  options : UInt8
  nandblocksize : UInt8
  nandbadblklocation : UInt8
  ext : UInt8
  checksum : UInt8

def MainHdrV1.bytes (hdr : MainHdrV1) : List UInt8 :=
  [hdr.blockid, hdr.flags, 0, 0] ++ le32 hdr.blocksize ++
    [hdr.version, hdr.headerszMsb] ++ le16 hdr.headerszLsb ++
    le32 hdr.srcaddr ++ le32 hdr.destaddr ++ le32 hdr.execaddr ++
    [hdr.options, hdr.nandblocksize, hdr.nandbadblklocation, 0, 0, 0, hdr.ext, hdr.checksum]

/- The sizes of the structures. -/
def mainHdrSize : Nat := 32
def extHdrV0Size : Nat := 480

/- The macro `KWBHEADER_V1_SIZE`. -/
def kwbheaderV1Size (hdr : List UInt8) : Nat :=
  (hdr.getD 9 0).toNat * 2 ^ 16 + Words.ofBytes ((hdr.drop 10).take 2)

/- Byte 8 of the header. -/
def imageVersion (hdr : List UInt8) : Nat :=
  (hdr.getD 8 0).toNat

----
-- Checksums
----

def imageChecksum8 (bytes : List UInt8) : UInt8 :=
  bytes.foldl (· + ·) 0

def wordSum : List UInt8 → Nat
  | a :: b :: c :: d :: rest => Words.ofBytes [a, b, c, d] + wordSum rest
  | _ => 0

/- The length is an `unsigned int`. -/
def imageChecksum32 (bytes : List UInt8) (len : Nat) : Nat :=
  if u32 len % 4 ≠ 0 then 0
  else u32 (wordSum (bytes.take (u32 len)))

----
-- Options
----

section Options

variable (cfg : List Element)

def findVersion : Option Int :=
  cfg.findSome? fun e =>
    match e with | .version v => some v | _ => none

def findBootFrom : Option Nat :=
  cfg.findSome? fun e =>
    match e with | .bootFrom id => some id | _ => none

def findNandBlksz : Option Nat :=
  cfg.findSome? fun e =>
    match e with | .nandBlksz n => some n | _ => none

def findNandBadblkLocation : Option Nat :=
  cfg.findSome? fun e =>
    match e with | .nandBadblkLocation n => some n | _ => none

def findNandEccMode : Option Nat :=
  cfg.findSome? fun e =>
    match e with | .nandEccMode id => some id | _ => none

def findNandPagesz : Option Nat :=
  cfg.findSome? fun e =>
    match e with | .nandPagesz n => some n | _ => none

def findBaudrate : Option Nat :=
  cfg.findSome? fun e =>
    match e with | .baudrate n => some n | _ => none

def findDebug : Option Nat :=
  cfg.findSome? fun e =>
    match e with | .debug n => some n | _ => none

/- The lines that may be given more than once. -/
def binaries : List (List UInt8 × List Nat) :=
  cfg.filterMap fun e =>
    match e with
    | .binary file args => some (file, args)
    | _ => none

def datas : List (Nat × Nat) :=
  cfg.filterMap fun e =>
    match e with
    | .data raddr rdata => some (raddr, rdata)
    | _ => none

def payloads : List Unit :=
  cfg.filterMap fun e =>
    match e with | .payload => some () | _ => none

end Options

def imageGetVersion (cfg : List Element) : Int :=
  (findVersion cfg).getD (-1)

def baudrateToOption (baudrate : Nat) : UInt8 :=
  if baudrate = 2400 then 1
  else if baudrate = 4800 then 2
  else if baudrate = 9600 then 3
  else if baudrate = 19200 then 4
  else if baudrate = 38400 then 5
  else if baudrate = 57600 then 6
  else if baudrate = 115200 then 7
  else 0

----
-- Version 0
----

/- Where the image is loaded and started. -/
structure Params where
  addr : Nat
  ep : Nat

/- The files, and `CONFIG_SYS_U_BOOT_OFFS`. -/
structure Env where
  files : List UInt8 → Option (List UInt8)
  uBootOffs : Option Nat

/-
  The extended header.  The registers are written one behind
  the other, over what follows their array if they are many.
-/
def extHdrV0 (datas : List (Nat × Nat)) : Option (List UInt8) :=
  let regs := datas.flatMap fun d => le32 d.1 ++ le32 d.2
  if extHdrV0Size < 32 + regs.length then none
  else
    let ext := le32 0x40 ++ zeros 28 ++ regs ++ zeros (extHdrV0Size - (32 + regs.length))
    some (ext.dropLast ++ [imageChecksum8 ext])

/- The main header, without its checksum. -/
def mainHdrV0 (cfg : List Element) (params : Params)
    (payloadsz headersz : Nat) : MainHdrV0 :=
  { blockid := .ofNat ((findBootFrom cfg).getD 0)
    nandeccmode := .ofNat ((findNandEccMode cfg).getD 0)
    nandpagesize := (findNandPagesz cfg).getD 0
    blocksize := payloadsz + 4 + 2 ^ 64 - headersz
    srcaddr := headersz
    destaddr := params.addr
    execaddr := params.ep
    ext := if datas cfg = [] then 0 else 1
    checksum := 0 }

/- The sum is over the main header alone. -/
def MainHdrV0.summed (hdr : MainHdrV0) : MainHdrV0 :=
  { hdr with checksum := imageChecksum8 hdr.bytes }

def headerszV0 (cfg : List Element) : Nat :=
  if datas cfg = [] then mainHdrSize
  else mainHdrSize + extHdrV0Size

def imageCreateV0 (cfg : List Element) (params : Params)
    (payloadsz : Nat) : Option (List UInt8) :=
  if 1 < (payloads cfg).length then none
  else
    let mainHdr := (mainHdrV0 cfg params payloadsz (headerszV0 cfg)).summed
    if datas cfg = [] then some mainHdr.bytes
    else
      (extHdrV0 (datas cfg)).map fun ext => mainHdr.bytes ++ ext

----
-- Version 1
----

/- The payload starts on some reasonable boundary. -/
def alignHeader (env : Env) (headersz : Nat) : Nat :=
  match env.uBootOffs with
  | none => alignSup headersz 4096
  | some offs =>
    if offs < headersz then 0 else alignSup offs 4096

/- Zero stands for an error. -/
def imageHeaderszV1 (env : Env) (cfg : List Element) : Nat :=
  if 1 < (binaries cfg).length then 0
  else if 1 < (payloads cfg).length then 0
  else
    match binaries cfg with
    | [] => alignHeader env mainHdrSize
    | (file, args) :: _ =>
      match env.files file with
      | none => 0
      | some blob => alignHeader env (mainHdrSize + (4 + blob.length + (args.length + 2) * 4))

/- The size that the binary header says it has. -/
def binhdrsz (args : List Nat) (blob : List UInt8) : Nat :=
  alignSup (4 + (args.length + 2) * 4 + blob.length) 4 + 4

/-
  The binary header, up to the word behind the blob.  An empty
  file cannot be read.
-/
def addBinaryHeaderV1 (args : List Nat)
    (blob : List UInt8) : Option (List UInt8) :=
  if blob = [] then none
  else
    let size := binhdrsz args blob
    some
      ([2, .ofNat (size % 2 ^ 32 / 2 ^ 16)] ++ le16 size ++
        le32 args.length ++ args.flatMap le32 ++ blob ++
        zeros (alignSup blob.length 4 - blob.length) ++ le32 0)

/- The headers behind the main header: one at most. -/
def optHdrsV1 (env : Env)
    (cfg : List Element) : Option (List UInt8) :=
  match binaries cfg with
  | [] => some []
  | (file, args) :: _ => (env.files file).bind (addBinaryHeaderV1 args)

/- The main header, without its checksum. -/
def mainHdrV1 (cfg : List Element) (params : Params)
    (payloadsz headersz : Nat) : MainHdrV1 :=
  let hasext : UInt8 := if binaries cfg = [] then 0 else 1
  let mainHdr : MainHdrV1 :=
    { blockid := .ofNat ((findBootFrom cfg).getD 0)
      flags := if (findDebug cfg).getD 0 = 0 then 0 else 1
      blocksize := payloadsz + 4 + 2 ^ 64 - headersz
      version := 1
      headerszMsb := .ofNat (headersz % 2 ^ 32 / 2 ^ 16)
      headerszLsb := headersz
      srcaddr := headersz
      destaddr := u32 params.addr + 2 ^ 32 - 64
      execaddr := params.ep
      options := baudrateToOption ((findBaudrate cfg).getD 0)
      nandblocksize := .ofNat ((findNandBlksz cfg).getD 0 / (64 * 1024))
      nandbadblklocation := .ofNat ((findNandBadblkLocation cfg).getD 0)
      ext := hasext
      checksum := 0 }
  -- The flag is set again, whatever follows.
  { mainHdr with ext := 1 }

/- The sum is over the whole header. -/
def MainHdrV1.summed (hdr : MainHdrV1)
    (rest : List UInt8) : MainHdrV1 :=
  { hdr with checksum := imageChecksum8 (hdr.bytes ++ rest) }

def imageCreateV1 (env : Env) (cfg : List Element) (params : Params)
    (payloadsz : Nat) : Option (List UInt8) :=
  let headersz := imageHeaderszV1 env cfg
  if headersz = 0 then none
  else
    (optHdrsV1 env cfg).bind fun opt =>
      if headersz < mainHdrSize + opt.length then none
      else
        let rest := opt ++ zeros (headersz - (mainHdrSize + opt.length))
        some (((mainHdrV1 cfg params payloadsz headersz).summed rest).bytes ++ rest)

----
-- The Image
----

/- The header space, whose size is an `int`. -/
def kwbimageGenerate (env : Env)
    (file : List UInt8) : Option Nat :=
  match imageCreateConfigParse file with
  | .error _ => none
  | .ok cfg =>
    if imageGetVersion cfg = -1 ∨ imageGetVersion cfg = 0 then
      some (mainHdrSize + extHdrV0Size)
    else if imageGetVersion cfg = 1 then
      let allocLen := toInt (imageHeaderszV1 env cfg)
      -- No memory has a negative size.
      if allocLen < 0 then none else some allocLen.toNat
    else none

/- The space for the header, the payload, and zeros behind. -/
def imageFile (headerSize : Nat)
    (payload : List UInt8) : List UInt8 :=
  zeros headerSize ++ payload ++ zeros (alignSup payload.length 4 - payload.length)

/- The header, and the file with its checksum behind it. -/
def kwbimageSetHeader (env : Env) (params : Params) (file ptr : List UInt8) :
    Option (List UInt8 × List UInt8) :=
  match imageCreateConfigParse file with
  | .error _ => none
  | .ok cfg =>
    let stSize := alignSup ptr.length 4
    let image :=
      if imageGetVersion cfg = -1 ∨ imageGetVersion cfg = 0 then
        imageCreateV0 cfg params stSize
      else if imageGetVersion cfg = 1 then
        imageCreateV1 env cfg params stSize
      else none
    image.bind fun image =>
      let checksum := imageChecksum32 ptr stSize
      if ptr.length < image.length then none
      else
        some (image, image ++ ptr.drop image.length ++ le32 checksum)

----
-- Verification
----

def kwbimageHeaderSize (ptr : List UInt8) : Nat :=
  if imageVersion ptr = 0 then mainHdrSize
  else kwbheaderV1Size ptr

def mainHdrChecksumOk (hdr : List UInt8) : Bool :=
  let checksum := imageChecksum8 (hdr.take (kwbimageHeaderSize hdr))
  checksum - hdr.getD 31 0 == hdr.getD 31 0

/- The error `FDT_ERR_BADSTRUCTURE`. -/
def fdtErrBadstructure : Int := 11

/- Only a header of version 0 has a second checksum. -/
def kwbimageVerifyHeader (ptr : List UInt8) : Int :=
  let ext := (ptr.drop mainHdrSize).take extHdrV0Size
  if mainHdrChecksumOk ptr = false then -fdtErrBadstructure
  else if imageVersion ptr = 0 ∧ imageChecksum8 ext.dropLast ≠ ext.getD 479 0 then
    -fdtErrBadstructure
  else 0

end Uboot.Kwbimage

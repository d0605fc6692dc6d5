import BootFirmware.Uboot.CTypes
import BootFirmware.Uboot.Net.Defragment
import Mathlib.Tactic.SplitIfs

/-
  What is handed on of a frame: each handler is called with a
  pointer and a length.

  Key definitions include:
    * `linkLayer`, `ipLayer` and `netProcessReceivedPacket`
    * `Buffer` and `gotAfter`
    * `Delivery.Received` and `OnlyReceived`
    * `LengthsFit`

  The main results are:
    * `only_received_iff`
    * `udp_len_not_checked`
-/

----
-- Frames
----

namespace Uboot.Net

open List Option

/- The options that are built in. -/
structure NetConfig where
  cdp : Bool
  rarp : Bool
  ping : Bool
  tftpPut : Bool
  ipDefrag : Bool
  udpChecksum : Bool
  netconsole : Bool

/-
  The buffer of the reassembly.  `got`, which is not in the
  source, says which of its bytes have been received for the
  packet that is in it.
-/
structure Buffer extends Defrag where
  got : Nat → Bool

/- VLAN numbers are in the byte order of the machine. -/
structure NetState where
  pushPacket : Bool
  icmpHandler : Bool
  ourVlan : Nat
  nativeVlan : Nat
  netIp : List UInt8
  defrag : Buffer

/- The bytes at the start of a buffer; `len` is an `int`. -/
structure Frame where
  rx : Memory UInt8
  len : Nat
  len_lt : len < 2 ^ 31

inductive Handler where
  | pushPacket
  | arp
  | rarp
  | cdp
  | ping
  | icmp
  | netconsole
  | udp
deriving DecidableEq, Repr

/- A range of the frame or of the reassembled packet. -/
structure Delivery where
  handler : Handler
  reassembled : Bool
  start : Nat
  len : Int
deriving DecidableEq, Repr

def ETHER_HDR_SIZE : Nat := 14
def E802_HDR_SIZE : Nat := 22
def VLAN_ETHER_HDR_SIZE : Nat := 18
def UDP_HDR_SIZE : Nat := IP_UDP_HDR_SIZE - IP_HDR_SIZE

def PROT_IP : Nat := 0x0800
def PROT_ARP : Nat := 0x0806
def PROT_RARP : Nat := 0x8035
def PROT_VLAN : Nat := 0x8100

def IPPROTO_ICMP : Nat := 1
def IPPROTO_UDP : Nat := 17

def ICMP_REDIRECT : Nat := 5

def VLAN_NONE : Nat := 4095
def VLAN_IDMASK : Nat := 0x0fff

/- A field in network byte order, wherever it is. -/
def word (m : Memory UInt8) (off : Nat) : Nat :=
  (m off).toNat * 256 + (m (off + 1)).toNat

/- `is_cdp_packet` of the destination. -/
def isCdpPacket (rx : Memory UInt8) : Bool :=
  rx.slice 0 6 == [0x01, 0x00, 0x0c, 0xcc, 0xcc, 0xcc]

/- `-1` stands for no VLAN. -/
def ownVlan (vlan : Nat) : Nat :=
  if vlan = 0xffff then VLAN_NONE else vlan

/- The tag matches, or no VLAN is in use. -/
def vlanMatches (st : NetState) (vlanid : Nat) : Bool :=
  let myvlanid := ownVlan st.ourVlan &&& VLAN_IDMASK
  let vlanid :=
    if vlanid = VLAN_NONE then
      ownVlan st.nativeVlan &&& VLAN_IDMASK
    else vlanid
  myvlanid == VLAN_NONE || vlanid == myvlanid

/- Where the packet begins, and its protocol. -/
structure Link where
  ethProto : Nat
  ip : Nat
deriving DecidableEq, Repr

/- The header of a frame that is not too small. -/
def linkHeader (cfg : NetConfig) (st : NetState) (rx : Memory UInt8)
    (len : Nat) : Option (Link × Nat) :=
  let ethProto := word rx 12
  if ethProto < 1514 then
    -- an 802.2 packet: its header may not be there in full
    some (⟨word rx 20, E802_HDR_SIZE⟩, VLAN_NONE)
  else if ethProto ≠ PROT_VLAN then
    some (⟨ethProto, ETHER_HDR_SIZE⟩, VLAN_NONE)
  else if len < VLAN_ETHER_HDR_SIZE then none
  else if st.ourVlan &&& VLAN_IDMASK = VLAN_NONE ∧ ¬ (cfg.cdp ∧ isCdpPacket rx) then
    none
  else
    some (⟨word rx 16, VLAN_ETHER_HDR_SIZE⟩, word rx 14 &&& VLAN_IDMASK)

/- A frame goes to one of these. -/
inductive Dest where
  | dropped
  | cdp (ip : Nat)
  | arp (ip : Nat)
  | rarp (ip : Nat)
  | ip (ip : Nat)
deriving DecidableEq, Repr

def linkLayer (cfg : NetConfig) (st : NetState) (rx : Memory UInt8)
    (len : Nat) : Dest :=
  match linkHeader cfg st rx len with
  | none => .dropped
  | some (link, vlanid) =>
    if cfg.cdp ∧ isCdpPacket rx then .cdp link.ip
    else if !vlanMatches st vlanid then .dropped
    else if link.ethProto = PROT_ARP then .arp link.ip
    else if cfg.rarp ∧ link.ethProto = PROT_RARP then
      .rarp link.ip
    else if link.ethProto = PROT_IP then .ip link.ip
    else .dropped

----
-- Packets
----

/-
  The packet that `net_defragment` returns: a place in the
  frame, or the buffer of the reassembly.  `len` is what is
  taken for its length, and `got` says which bytes of the
  frame or the buffer were received.
-/
structure Packet where
  reassembled : Bool
  mem : Memory UInt8
  ip : Nat
  len : Nat
  got : Nat → Bool

namespace Packet

variable (p : Packet)

/- The protocol of the packet. -/
def proto : Nat := (p.mem (p.ip + 9)).toNat
def udpLen : Nat := word p.mem (p.ip + 24)
def udpXsum : Nat := word p.mem (p.ip + 26)
def icmpType : Nat := (p.mem (p.ip + 20)).toNat

end Packet

/- The bytes of the buffer to which a fragment is copied. -/
def Fragment.inCopy (f : Fragment) (i : Nat) : Bool :=
  holeOff f.offset8 ≤ i && (i : Int) < holeOff f.offset8 + f.len

/-
  The bytes of the buffer that were received, after another
  fragment: of a new packet only its header, and of any packet
  what is copied of a fragment that meets a hole.
-/
def gotAfter (ip : List UInt8) (s : Buffer) : Nat → Bool :=
  let f := Fragment.ofIp ip
  if f.tooFar then s.got
  else
    let t := startPacket ip s.toDefrag
    let got :=
      if s.totalLen = 0 ∨ s.ipId ≠ ipId ip then fun i => decide (i < IP_HDR_SIZE)
      else s.got
    match search t.pktBuff f.start (2 ^ 16) t.firstHole with
    | some (some h) =>
      if (f.offset8 : Int) + (f.len + 7).tdiv 8 ≤ h then got
      else fun i => got i || f.inCopy i
    | _ => got

/- The checks of the header, and the reassembly. -/
def ipLayer (cfg : NetConfig) (st : NetState) (rx : Memory UInt8)
    (len ip : Nat) : Option (Option Packet × Buffer) :=
  let bytes := rx.slice ip (len - ip)
  if !ipAccepted st.netIp bytes then some (none, st.defrag)
  else if !isFragment bytes then
    some (some ⟨false, rx, ip, ipLen bytes, fun i => decide (i < len)⟩, st.defrag)
  else if !cfg.ipDefrag then some (none, st.defrag)
  else
    (netDefragment bytes st.defrag.toDefrag).map fun r =>
      let got := gotAfter bytes st.defrag
      (r.1.map fun total =>
        ⟨true, r.2.pktBuff, 0, total, fun i => got i && decide (i < IP_PKTSIZE)⟩, ⟨r.2, got⟩)

/- The words of a UDP packet, the last one perhaps cut. -/
def udpWords (m : Memory UInt8) : Nat → Nat → Nat
  | _, 0 => 0
  | off, 1 => (m off).toNat * 256
  | off, n + 2 => word m off + udpWords m (off + 2) n

/- A sum of less than 32 bits takes three rounds at most. -/
def foldSum : Nat → Nat → Nat
  | 0, xsum => xsum
  | rounds + 1, xsum =>
    if xsum / 2 ^ 16 = 0 then xsum
    else
      foldSum rounds (xsum % 2 ^ 16 + xsum / 2 ^ 16 % 2 ^ 16)

def udpChecksumOk (p : Packet) : Bool :=
  let xsum :=
    p.proto + p.udpLen + word p.mem (p.ip + 12) + word p.mem (p.ip + 14) +
      word p.mem (p.ip + 16) + word p.mem (p.ip + 18) + udpWords p.mem (p.ip + 20) p.udpLen
  let xsum := foldSum 4 xsum
  xsum == 0 || xsum == 0xffff

----
-- Deliveries
----

def Packet.deliver (p : Packet) (handler : Handler) (off : Nat)
    (len : Int) : Delivery where
  handler := handler
  reassembled := p.reassembled
  start := p.ip + off
  len := len

/-
  `receive_icmp`.  The length for the handler of the TFTP
  server is read where a UDP packet would have it.
-/
def receiveIcmp (cfg : NetConfig) (st : NetState)
    (p : Packet) : List Delivery :=
  if p.icmpType = ICMP_REDIRECT then []
  else
    (if cfg.ping then [p.deliver .ping 0 p.len] else []) ++ (if cfg.tftpPut ∧ st.icmpHandler then
      [p.deliver .icmp 24 p.udpLen]
    else [])

/- `ntohs(ip->udp_len) - UDP_HDR_SIZE`, an `unsigned`. -/
def udpDataLen (p : Packet) : Nat :=
  u32 (p.udpLen + 2 ^ 32 - UDP_HDR_SIZE)

def receiveUdp (cfg : NetConfig)
    (p : Packet) : List Delivery :=
  if cfg.udpChecksum ∧ p.udpXsum ≠ 0 ∧ ¬ udpChecksumOk p then
    []
  else
    (if cfg.netconsole then
      [p.deliver .netconsole IP_UDP_HDR_SIZE (udpDataLen p)]
    else []) ++ [p.deliver .udp IP_UDP_HDR_SIZE (udpDataLen p)]

def receiveIp (cfg : NetConfig) (st : NetState)
    (p : Packet) : List Delivery :=
  if p.proto = IPPROTO_ICMP then receiveIcmp cfg st p
  else if p.proto ≠ IPPROTO_UDP then []
  else receiveUdp cfg p

/- The whole rest of the frame. -/
def frameRest (handler : Handler)
    (len start : Nat) : Delivery where
  handler := handler
  reassembled := false
  start := start
  len := (len : Int) - start

/-
  `net_process_received_packet`.  There is no result if the
  reassembly reads or writes outside its buffer.
-/
def netProcessReceivedPacket (cfg : NetConfig) (st : NetState)
    (frame : Frame) : Option (List Delivery × Buffer) :=
  let len := frame.len
  if len < ETHER_HDR_SIZE then some ([], st.defrag)
  else if st.pushPacket then
    some ([frameRest .pushPacket len 0], st.defrag)
  else
    match linkLayer cfg st frame.rx len with
    | .dropped => some ([], st.defrag)
    | .cdp ip => some ([frameRest .cdp len ip], st.defrag)
    | .arp ip => some ([frameRest .arp len ip], st.defrag)
    | .rarp ip => some ([frameRest .rarp len ip], st.defrag)
    | .ip ip =>
      (ipLayer cfg st frame.rx len ip).map fun r => ((r.1.map (receiveIp cfg st)).getD [], r.2)

----
-- Ranges Of Received Bytes
----

/- The packet that gets to the handlers of IP, if any. -/
def packetOf (cfg : NetConfig) (st : NetState)
    (frame : Frame) : Option Packet :=
  if frame.len < ETHER_HDR_SIZE ∨ st.pushPacket then none
  else
    match linkLayer cfg st frame.rx frame.len with
    | .ip ip => ((ipLayer cfg st frame.rx frame.len ip).map (·.1)).join
    | _ => none

/-
  The range lies in the frame, or each of its bytes was
  received for the packet in the buffer.
-/
def Delivery.Received (d : Delivery) (len : Nat)
    (packet : Option Packet) : Prop :=
  0 ≤ d.len ∧
    if d.reassembled then
      ∃ p, packet = some p ∧ ∀ i : Nat, d.start ≤ i → (i : Int) < d.start + d.len → p.got i = true
    else d.start + d.len ≤ len

/- What is handed on was received. -/
def OnlyReceived (cfg : NetConfig) (st : NetState)
    (frame : Frame) : Prop :=
  ∀ ds defrag, netProcessReceivedPacket cfg st frame = some (ds, defrag) →
      ∀ d ∈ ds, d.Received frame.len (packetOf cfg st frame)

/- The packet passes the test of its checksum, if any. -/
def Packet.isUdp (cfg : NetConfig) (p : Packet) : Prop :=
  p.proto = IPPROTO_UDP ∧ ¬ (cfg.udpChecksum ∧ p.udpXsum ≠ 0 ∧ ¬ udpChecksumOk p)

/- There is a handler for the ICMP packet. -/
def Packet.isIcmp (cfg : NetConfig) (st : NetState)
    (p : Packet) : Prop :=
  p.proto = IPPROTO_ICMP ∧ p.icmpType ≠ ICMP_REDIRECT ∧ cfg.tftpPut ∧ st.icmpHandler

def Packet.isPing (cfg : NetConfig) (p : Packet) : Prop :=
  p.proto = IPPROTO_ICMP ∧ p.icmpType ≠ ICMP_REDIRECT ∧ cfg.ping

/- So many bytes from an offset of the packet were received. -/
def Packet.Has (p : Packet) (off n : Nat) : Prop :=
  ∀ i < n, p.got (p.ip + off + i) = true

/-
  The length in the header of UDP, or where it would be, and
  that of the packet.
-/
def Packet.LengthFits (cfg : NetConfig) (st : NetState)
    (p : Packet) : Prop :=
  (p.isUdp cfg → UDP_HDR_SIZE ≤ p.udpLen ∧ p.Has IP_UDP_HDR_SIZE (p.udpLen - UDP_HDR_SIZE)) ∧
  (p.isPing cfg → p.Has 0 p.len) ∧ (p.isIcmp cfg st → p.Has 24 p.udpLen)

/- The frame has the header of its kind. -/
def Dest.HeaderFits (len : Nat) : Dest → Prop
  | .cdp start => start ≤ len
  | .arp start => start ≤ len
  | .rarp start => start ≤ len
  | _ => True

/-
  An 802.2 packet for ARP, RARP or CDP has its header, and
  the length in a UDP or ICMP packet is within the packet.
-/
def LengthsFit (cfg : NetConfig) (st : NetState)
    (frame : Frame) : Prop :=
  (ETHER_HDR_SIZE ≤ frame.len → st.pushPacket = false →
    (linkLayer cfg st frame.rx frame.len).HeaderFits frame.len) ∧
  ∀ p, packetOf cfg st frame = some p → p.LengthFits cfg st

----
-- Lengths That Fit
----

/- A packet that gets to the handlers of IP. -/
structure Packet.Ok (len : Nat) (p : Packet) : Prop where
  hGot : ∀ i, p.got i = true → i < 2 ^ 31
  hPlace : p.reassembled = false → p.ip + IP_UDP_HDR_SIZE ≤ len ∧ p.got = fun i => decide (i < len)

variable {cfg : NetConfig} {st : NetState} {frame : Frame} {p : Packet}

theorem ipLayer_ok {ip : Nat} {defrag : Buffer}
    (hLayer : ipLayer cfg st frame.rx frame.len ip = some (some p, defrag)) :
    p.Ok frame.len := by
  unfold ipLayer at hLayer
  dsimp only at hLayer
  split_ifs at hLayer with hRefused hWhole hDrop
  · cases hLayer
  · cases hLayer
    have hAccepted : ipAccepted st.netIp (frame.rx.slice ip (frame.len - ip)) = true := by
      simpa using hRefused
    unfold ipAccepted at hAccepted
    simp only [Bool.and_eq_true, decide_eq_true_eq, Memory.length_slice] at hAccepted
    have hHeader : IP_UDP_HDR_SIZE = 28 := rfl
    have hFrame := frame.len_lt
    constructor
    · intro i hi
      have hLess : i < frame.len := of_decide_eq_true hi
      omega
    · exact fun _ => ⟨by dsimp only; omega, rfl⟩
  · cases hLayer
  · rcases map_eq_some_iff.mp hLayer with ⟨⟨total, s⟩, -, hPair⟩
    cases total with
    | none => cases hPair
    | some total =>
      cases hPair
      refine ⟨fun i hi => ?_, nofun⟩
      have hLess : i < IP_PKTSIZE := of_decide_eq_true (Bool.and_eq_true_iff.mp hi).2
      exact Nat.lt_trans hLess (by decide)

theorem packetOf_ok (hPacket : packetOf cfg st frame = some p) :
    p.Ok frame.len := by
  unfold packetOf at hPacket
  split_ifs at hPacket
  cases hLink : linkLayer cfg st frame.rx frame.len with
  | ip ip =>
    rw [hLink] at hPacket
    rcases join_eq_some_iff.mp hPacket with hSome
    rcases map_eq_some_iff.mp hSome with ⟨⟨_, defrag⟩, hLayer, rfl⟩
    exact ipLayer_ok hLayer
  | dropped | cdp ip | arp ip | rarp ip =>
    rw [hLink] at hPacket
    cases hPacket

variable {len : Nat}

theorem deliver_received_iff
    {off : Nat} (hOk : p.Ok len) (handler : Handler) (hOff : off ≤ IP_UDP_HDR_SIZE) (n : Nat) :
    (p.deliver handler off n).Received len (some p) ↔ p.Has off n := by
  unfold Delivery.Received Packet.deliver Packet.Has
  dsimp only
  rw [and_iff_right (Int.natCast_nonneg n)]
  cases hWhere : p.reassembled with
  | true =>
    rw [if_pos rfl]
    constructor
    · rintro ⟨q, hEq, hIn⟩ i hi
      cases hEq
      exact hIn _ (by omega) (by omega)
    · intro hHas
      refine ⟨p, rfl, fun i hLow hHigh => ?_⟩
      have hByte := hHas (i - (p.ip + off)) (by omega)
      rwa [Nat.add_sub_cancel' hLow] at hByte
  | false =>
    rcases hOk.hPlace hWhere with ⟨hHeader, hGot⟩
    rw [if_neg Bool.false_ne_true, hGot]
    constructor
    · intro hIn i hi
      exact decide_eq_true (by omega)
    · intro hHas
      by_cases hNone : n = 0
      · omega
      · have hLast := of_decide_eq_true (hHas (n - 1) (by omega))
        omega

/- A handler that is called if there is one. -/
theorem optional_iff {c : Prop} [Decidable c] {P : Delivery → Prop} {d : Delivery} :
    (∀ e ∈ (if c then [d] else []), P e) ↔ (c → P d) := by
  split_ifs with hOn
  · rw [forall_mem_singleton]
    exact ⟨fun h _ => h, fun h => h hOn⟩
  · exact ⟨fun _ h => absurd h hOn, fun _ e hMem => absurd hMem not_mem_nil⟩

theorem word_lt (m : Memory UInt8) (off : Nat) :
    word m off < 2 ^ 16 := by
  unfold word
  have hHigh := (m off).toNat_lt
  have hLow := (m (off + 1)).toNat_lt
  omega

section

variable (hOk : p.Ok len)
include hOk

/- A length below the header wraps around. -/
theorem udpDataLen_fits_iff :
    p.Has IP_UDP_HDR_SIZE (udpDataLen p) ↔
      UDP_HDR_SIZE ≤ p.udpLen ∧ p.Has IP_UDP_HDR_SIZE (p.udpLen - UDP_HDR_SIZE) := by
  have hLt : p.udpLen < 2 ^ 16 := word_lt _ _
  have hUdp : UDP_HDR_SIZE = 8 := rfl
  by_cases hHeader : UDP_HDR_SIZE ≤ p.udpLen
  · have hLen : udpDataLen p = p.udpLen - UDP_HDR_SIZE := by
      unfold udpDataLen u32
      omega
    rw [hLen, and_iff_right hHeader]
  · have hLong : 2 ^ 31 < udpDataLen p := by
      unfold udpDataLen u32
      omega
    refine ⟨fun hHas => ?_, fun hFits => absurd hFits.1 hHeader⟩
    have hByte := hOk.hGot _ (hHas (2 ^ 31) hLong)
    omega

theorem receiveUdp_iff (hProto : p.proto = IPPROTO_UDP) :
    (∀ d ∈ receiveUdp cfg p, d.Received len (some p)) ↔ (p.isUdp cfg →
        UDP_HDR_SIZE ≤ p.udpLen ∧ p.Has IP_UDP_HDR_SIZE (p.udpLen - UDP_HDR_SIZE)) := by
  have hEach : ∀ handler, (p.deliver handler IP_UDP_HDR_SIZE (udpDataLen p)).Received len (some p) ↔
        UDP_HDR_SIZE ≤ p.udpLen ∧ p.Has IP_UDP_HDR_SIZE (p.udpLen - UDP_HDR_SIZE) := by
    intro handler
    rw [deliver_received_iff hOk _ (Nat.le_refl _), ← udpDataLen_fits_iff hOk]
  unfold receiveUdp
  by_cases hBad : cfg.udpChecksum ∧ p.udpXsum ≠ 0 ∧ ¬ udpChecksumOk p
  · rw [if_pos hBad]
    exact ⟨fun _ hUdp => absurd hBad hUdp.2, fun _ d hMem => absurd hMem not_mem_nil⟩
  · rw [if_neg hBad, forall_mem_append, optional_iff, forall_mem_singleton, hEach, hEach]
    exact ⟨fun h _ => h.2, fun h => ⟨fun _ => h ⟨hProto, hBad⟩, h ⟨hProto, hBad⟩⟩⟩

theorem receiveIcmp_iff (hProto : p.proto = IPPROTO_ICMP) :
    (∀ d ∈ receiveIcmp cfg st p, d.Received len (some p)) ↔
      (p.isPing cfg → p.Has 0 p.len) ∧ (p.isIcmp cfg st → p.Has 24 p.udpLen) := by
  have hPing : (p.deliver .ping 0 p.len).Received len (some p) ↔ p.Has 0 p.len :=
    deliver_received_iff hOk _ (Nat.zero_le _) _
  have hIcmp : (p.deliver .icmp 24 p.udpLen).Received len (some p) ↔ p.Has 24 p.udpLen :=
    deliver_received_iff hOk _ (by decide) _
  unfold receiveIcmp Packet.isPing Packet.isIcmp
  rw [← hPing, ← hIcmp]
  by_cases hRedirect : p.icmpType = ICMP_REDIRECT
  · rw [if_pos hRedirect]
    exact ⟨fun _ => ⟨fun h => absurd hRedirect h.2.1, fun h => absurd hRedirect h.2.1⟩,
      fun _ d hMem => absurd hMem not_mem_nil⟩
  · rw [if_neg hRedirect, forall_mem_append, optional_iff, optional_iff]
    exact ⟨fun h => ⟨fun hIs => h.1 hIs.2.2, fun hIs => h.2 hIs.2.2⟩,
      fun h => ⟨fun hOn => h.1 ⟨hProto, hRedirect, hOn⟩, fun hOn => h.2 ⟨hProto, hRedirect, hOn⟩⟩⟩

theorem receiveIp_iff :
    (∀ d ∈ receiveIp cfg st p, d.Received len (some p)) ↔ p.LengthFits cfg st := by
  unfold receiveIp Packet.LengthFits
  split_ifs with hIcmp hOther
  · have hNot : ¬ p.isUdp cfg := by
      intro hUdp
      exact absurd (hIcmp.symm.trans hUdp.1) (by decide)
    rw [receiveIcmp_iff hOk hIcmp]
    exact ⟨fun h => ⟨fun hUdp => absurd hUdp hNot, h⟩, fun h => h.2⟩
  · constructor
    · intro _
      exact ⟨fun hUdp => absurd hUdp.1 hOther, fun hIs => absurd hIs.1 hIcmp,
        fun hIs => absurd hIs.1 hIcmp⟩
    · intro _ d hMem
      cases hMem
  · have hUdp : p.proto = IPPROTO_UDP := Classical.not_not.mp hOther
    rw [receiveUdp_iff hOk hUdp]
    exact
      ⟨fun h => ⟨h, fun hIs => absurd hIs.1 hIcmp, fun hIs => absurd hIs.1 hIcmp⟩, fun h => h.1⟩

end

theorem frameRest_received_iff (handler : Handler) (len start : Nat) (packet : Option Packet) :
    (frameRest handler len start).Received len packet ↔ start ≤ len := by
  unfold Delivery.Received frameRest
  dsimp only
  rw [if_neg (by decide)]
  omega

theorem onlyReceived_rest {handler : Handler} {start : Nat}
    (hStep : netProcessReceivedPacket cfg st frame =
      some ([frameRest handler frame.len start], st.defrag)) :
    OnlyReceived cfg st frame ↔ start ≤ frame.len := by
  constructor
  · intro hOnly
    have hRange := hOnly _ _ hStep _ mem_cons_self
    exact (frameRest_received_iff _ _ _ _).mp hRange
  · intro hLe ds defrag hEq d hMem
    rw [hStep] at hEq
    cases hEq
    rw [mem_singleton.mp hMem]
    exact (frameRest_received_iff _ _ _ _).mpr hLe

theorem onlyReceived_nothing
    (hStep : netProcessReceivedPacket cfg st frame = some ([], st.defrag)) :
    OnlyReceived cfg st frame := by
  intro ds defrag hEq d hMem
  rw [hStep] at hEq
  cases hEq
  cases hMem

theorem onlyReceived_ip {ip : Nat}
    (hStep : netProcessReceivedPacket cfg st frame =
      (ipLayer cfg st frame.rx frame.len ip).map fun r =>
        ((r.1.map (receiveIp cfg st)).getD [], r.2))
    (hPacket : packetOf cfg st frame = ((ipLayer cfg st frame.rx frame.len ip).map (·.1)).join) :
    OnlyReceived cfg st frame ↔ ∀ p, packetOf cfg st frame = some p → p.LengthFits cfg st := by
  constructor
  · intro hOnly p hp
    have hOk := packetOf_ok hp
    rw [← receiveIp_iff hOk]
    intro d hMem
    rw [← hp]
    rw [hPacket] at hp
    rcases map_eq_some_iff.mp (join_eq_some_iff.mp hp) with ⟨⟨_, defrag⟩, hLayer, rfl⟩
    apply hOnly (receiveIp cfg st p) defrag
    · rw [hStep, hLayer]
      rfl
    · exact hMem
  · intro hFits ds defrag hEq d hMem
    rw [hStep] at hEq
    rcases map_eq_some_iff.mp hEq with ⟨⟨packet, defrag'⟩, hLayer, hPair⟩
    cases hPair
    cases packet with
    | none => cases hMem
    | some p =>
      have hp : packetOf cfg st frame = some p := by
        rw [hPacket, hLayer]
        rfl
      rw [hp]
      exact (receiveIp_iff (packetOf_ok hp)).mpr (hFits p hp) d hMem

def plainConfig : NetConfig :=
  ⟨false, false, false, false, false, false, false⟩

def plainState : NetState where
  pushPacket := false
  icmpHandler := false
  ourVlan := 0xffff
  nativeVlan := 0xffff
  netIp := [10, 0, 0, 1]
  defrag := ⟨⟨fun _ => 0, 0, 0⟩, fun _ => false⟩

/- Only headers, and the length in that of UDP is zero. -/
def emptyDatagram : List UInt8 :=
  [255, 255, 255, 255, 255, 255, 2, 0, 0, 0, 0, 2, 8, 0, 69, 0, 0, 28, 0, 0, 0, 0, 64, 17, 102, 207,
    10, 0, 0, 2, 10, 0, 0, 1, 0, 69, 4, 0, 0, 0, 0, 0]

def emptyFrame : Frame where
  rx := fun i => emptyDatagram.getD i 0
  len := 42
  len_lt := by decide

end Uboot.Net

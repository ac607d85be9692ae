import Mathlib.Data.BitVec

/-!
# The wire format

Constants of `raspike_protocol_com.h`, the little-endian accessors `rp_v2_get_u16` .. and
`rp_v2_put_u32`, the checksum `rp_v2_crc16`, and the two frame layouts built from them.

* v2      `0xEB version flags cmd port size seq(4) session(4) payload(size) crc(2)`;
* legacy  `0xEA cmd size port payload(size)`.

A C buffer is a `List Byte`; a pointer that may be NULL is a `Buf`.
-/

namespace RaspikeArt

abbrev Byte := BitVec 8
abbrev U16 := BitVec 16
abbrev U32 := BitVec 32

/-- `const unsigned char *` with the bytes it points to, `none` for NULL -/
abbrev Buf := Option (List Byte)

/-! ## error numbers -/

def EINTR : Int := 4
def EIO : Int := 5
def EAGAIN : Int := 11
def ENOMEM : Int := 12
def EBUSY : Int := 16
def EINVAL : Int := 22
def EPIPE : Int := 32
def ENOMSG : Int := 42
def EPROTO : Int := 71
def EBADMSG : Int := 74
def EMSGSIZE : Int := 90
def EPROTONOSUPPORT : Int := 93
def ENOBUFS : Int := 105
def ENOTCONN : Int := 107
def ETIMEDOUT : Int := 110
def ESTALE : Int := 116

/-! ## protocol constants -/

def rpCmdInit : Byte := 0xAE
def rpCmdStart : Byte := 0xEA
def rpCmdInitMagic : Byte := 0xCE

def rpV2Start : Byte := 0xEB
def rpV2Version : Byte := 2
def rpV2HeaderSize : Nat := 14
def rpV2CrcSize : Nat := 2
def rpV2MaxPayload : Nat := 240
def rpV2HelloPayloadSize : Nat := 12
def rpV2FlagHighPriority : Byte := 4
def rpV2CapFraming : Byte := 1
def rpProtocolBufmax : Nat := 256

def rpPortNone : Byte := 255
def rpDevicePortCount : Nat := 6
/-- `RP_PORT_NUMBER`: the six device ports and the hub -/
abbrev Port := Fin 7

instance port_neZero : NeZero 7 := ⟨by decide⟩

def rpHubDeviceIndex : Port := 6

/-- `MAKE_CMD(type,id)` -/
def makeCmd (type id : Byte) : Byte := type <<< 5 ||| id

def rpCmdTypeSys : Byte := 0
def rpCmdTypeColor : Byte := 1
def rpCmdTypeForce : Byte := 2
def rpCmdTypeMotor : Byte := 3
def rpCmdTypeUs : Byte := 4

def rpCmdIdAllStatus : Byte := makeCmd rpCmdTypeSys 0x1
def rpCmdIdAck : Byte := makeCmd rpCmdTypeSys 0x2
def rpCmdIdLinkHello : Byte := makeCmd rpCmdTypeSys 0x08
def rpCmdIdLinkStats : Byte := makeCmd rpCmdTypeSys 0x0A
def rpCmdIdDriveTelemetry : Byte := makeCmd rpCmdTypeSys 0x0C
def rpCmdIdRuntimeTelemetry : Byte := makeCmd rpCmdTypeSys 0x0E
def rpCmdIdMotRst : Byte := makeCmd rpCmdTypeMotor 0x2

/-! ## little-endian fields -/

def rpV2GetU16 (p : List Byte) : U16 :=
  (p.getD 0 0).zeroExtend 16 ||| (p.getD 1 0).zeroExtend 16 <<< 8

def rpV2GetU32 (p : List Byte) : U32 :=
  (p.getD 0 0).zeroExtend 32 ||| (p.getD 1 0).zeroExtend 32 <<< 8 |||
    (p.getD 2 0).zeroExtend 32 <<< 16 ||| (p.getD 3 0).zeroExtend 32 <<< 24

def rpV2PutU16 (value : U16) : List Byte :=
  [(value &&& 0xff).truncate 8, (value >>> 8 &&& 0xff).truncate 8]

def rpV2PutU32 (value : U32) : List Byte :=
  [(value &&& 0xff).truncate 8, (value >>> 8 &&& 0xff).truncate 8,
    (value >>> 16 &&& 0xff).truncate 8, (value >>> 24 &&& 0xff).truncate 8]

/-- an `int32_t` copied out of a buffer by `memcpy` (little-endian host) -/
def getInt32 (p : List Byte) : Int := (rpV2GetU32 p).toInt

/-! ## the checksum -/

/-- one turn of the inner loop of `rp_v2_crc16` -/
def crcBit (crc : U16) : U16 :=
  if crc &&& 0x8000 ≠ 0 then crc <<< 1 ^^^ 0x1021 else crc <<< 1

/-- the inner loop, `n` bits -/
def crcBits : Nat → U16 → U16
  | 0, crc => crc
  | n + 1, crc => crcBits n (crcBit crc)

/-- one turn of the outer loop -/
def crcByte (crc : U16) (b : Byte) : U16 := crcBits 8 (crc ^^^ b.zeroExtend 16 <<< 8)

def rpV2Crc16 (data : List Byte) : U16 := data.foldl crcByte 0xffff

/-! ## frames -/

/-- `frame + 1`, up to the checksum -/
def v2Body (port cmd flags : Byte) (sequence session : U32) (payload : List Byte) : List Byte :=
  [rpV2Version, flags, cmd, port, BitVec.ofNat 8 payload.length] ++ rpV2PutU32 sequence ++
    rpV2PutU32 session ++ payload

/-- the bytes that `send_v2_frame` hands to `raspike_com_send` -/
def v2Frame (port cmd flags : Byte) (sequence session : U32) (payload : List Byte) : List Byte :=
  rpV2Start :: v2Body port cmd flags sequence session payload ++
    rpV2PutU16 (rpV2Crc16 (v2Body port cmd flags sequence session payload))

/-- the bytes that `send_legacy_frame` hands to `raspike_com_send` -/
def legacyFrame (port cmd : Byte) (payload : List Byte) : List Byte :=
  [rpCmdStart, cmd, BitVec.ofNat 8 payload.length, port] ++ payload

def raspikeIsValidPort (port : Byte) : Bool :=
  port.toNat < rpDevicePortCount || port == rpPortNone

/-- `getDevice`: the slot of a port, `none` for NULL -/
def getDevice (port : Byte) : Option Port :=
  if port = rpPortNone then some rpHubDeviceIndex
  else if h : port.toNat < 6 then some ⟨port.toNat, by omega⟩ else none

theorem getDevice_isSome (port : Byte) :
    (getDevice port).isSome = raspikeIsValidPort port := by
  unfold getDevice raspikeIsValidPort rpDevicePortCount
  by_cases h : port = rpPortNone
  · simp [h]
  · by_cases h6 : port.toNat < 6 <;> simp [h, h6]

end RaspikeArt

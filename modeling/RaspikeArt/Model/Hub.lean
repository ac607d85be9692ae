import RaspikeArt.Model.Motors

/-!
# The hub: the display functions of `raspike_hub.c`

Each of them hands a small record to `send_hub_command`; the two that show a text build theirs from
the text.  A C string is the list of its bytes; it ends at its first zero, or with the list.
-/

namespace RaspikeArt
open Threads

def rpCmdTypeHub : Byte := 5

def rpCmdIdHubDispOri : Byte := makeCmd rpCmdTypeHub 0x1
def rpCmdIdHubDispOff : Byte := makeCmd rpCmdTypeHub 0x2
def rpCmdIdHubDispPix : Byte := makeCmd rpCmdTypeHub 0x3
def rpCmdIdHubDispImg : Byte := makeCmd rpCmdTypeHub 0x4
def rpCmdIdHubDispNum : Byte := makeCmd rpCmdTypeHub 0x5
def rpCmdIdHubDispChr : Byte := makeCmd rpCmdTypeHub 0x6
def rpCmdIdHubDispTxt : Byte := makeCmd rpCmdTypeHub 0x7
def rpCmdIdHubDispTxtScr : Byte := makeCmd rpCmdTypeHub 0x8

def sendHubCommand (command : Byte) (data : Buf) (size : Nat) : P PbioError := do
  if size > rpV2MaxPayload then return .invalidArg
  let result ← raspikeProtSendPriority rpPortNone command data size
  if result ≥ 0 then return .success
  if result = -EINVAL then return .invalidArg
  if result = -ENOTCONN then return .noDev
  return .io

def hubDisplayOrientation (up : Byte) : P PbioError := sendHubCommand rpCmdIdHubDispOri (some [up]) 1

def hubDisplayOff : P PbioError := sendHubCommand rpCmdIdHubDispOff none 0

def hubDisplayPixel (row column brightness : Byte) : P PbioError :=
  sendHubCommand rpCmdIdHubDispPix (some [row, column, brightness]) 3

def hubDisplayImage (image : Buf) : P PbioError :=
  match image with
  | none => pure .invalidArg
  | some image => sendHubCommand rpCmdIdHubDispImg (some image) 25

def hubDisplayNumber (num : Byte) : P PbioError := sendHubCommand rpCmdIdHubDispNum (some [num]) 1

def hubDisplayChar (c : Byte) : P PbioError := sendHubCommand rpCmdIdHubDispChr (some [c]) 1

/-- `strnlen` -/
def strnlen (s : List Byte) (n : Nat) : Nat := min n (s.takeWhile (· ≠ 0)).length

/-- a text behind the fields `front`, with the zero that ends it -/
def hubText (command : Byte) (front : List Byte) (text : Buf) : P PbioError :=
  match text with
  | none => pure .invalidArg
  | some text => do
    let maxChars := rpV2MaxPayload - front.length - 1
    let textLength := strnlen text (maxChars + 1)
    if textLength > maxChars then return .invalidArg
    sendHubCommand command (some (front ++ text.take textLength ++ [0])) (front.length + textLength + 1)

def hubDisplayText (text : Buf) (on off : U32) : P PbioError :=
  hubText rpCmdIdHubDispTxt (rpV2PutU32 on ++ rpV2PutU32 off) text

def hubDisplayTextScroll (text : Buf) (delay : U32) : P PbioError :=
  hubText rpCmdIdHubDispTxtScr (rpV2PutU32 delay) text

inductive HubCall where
  | orientation (up : Byte)
  | off
  | pixel (row column brightness : Byte)
  | image (bits : Buf)
  | number (num : Byte)
  | char (c : Byte)
  | text (s : Buf) (on off : U32)
  | textScroll (s : Buf) (delay : U32)

namespace HubCall

def body : HubCall → P PbioError
  | orientation up => hubDisplayOrientation up
  | off => hubDisplayOff
  | pixel row column brightness => hubDisplayPixel row column brightness
  | image bits => hubDisplayImage bits
  | number num => hubDisplayNumber num
  | char c => hubDisplayChar c
  | text s onTime offTime => hubDisplayText s onTime offTime
  | textScroll s delay => hubDisplayTextScroll s delay

/-- the size of the record, for a text as far as its first zero -/
def size : HubCall → Nat
  | orientation _ | number _ | char _ => 1
  | off => 0
  | pixel .. => 3
  | image _ => 25
  | text s _ _ => 8 + ((s.getD []).takeWhile (· ≠ 0)).length + 1
  | textScroll s _ => 4 + ((s.getD []).takeWhile (· ≠ 0)).length + 1

end HubCall

end RaspikeArt

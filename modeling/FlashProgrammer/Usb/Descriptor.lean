import FlashProgrammer.LittleEndian
import FlashProgrammer.Usb.Controller
import FlashProgrammer.Usb.Payload

/-!
# USB descriptors

The device has one configuration with one interface of a vendor class, which
owns the endpoint pair of the flash protocol.
-/

namespace FlashProgrammer.Usb

/-! ## Identity -/

def vendorId : Nat := 0x1209

def productId : Nat := 0x5350

/-- The device release, in binary-coded decimal. -/
def deviceRelease : Nat := 0x0100

def manufacturerText : String := "spiprog"

def productText : String := "SPI Flash Programmer"

def serialText : String := "SP0000001"

/-- The current drawn from the bus, in units of 2 mA. -/
def maxPower : UInt8 := 50

/-! ## The descriptors of the device -/

inductive DescriptorKind where
  | device
  | configuration
  | string
  | interface
  | endpoint
deriving DecidableEq, Repr

namespace DescriptorKind

def toByte : DescriptorKind → UInt8
  | device => 0x01
  | configuration => 0x02
  | string => 0x03
  | interface => 0x04
  | endpoint => 0x05

end DescriptorKind

/-- A descriptor: its length, its kind and its fields. -/
def descriptor (kind : DescriptorKind) (fields : List UInt8) : List UInt8 :=
  UInt8.ofNat (fields.length + 2) :: kind.toByte :: fields

/-- Two bytes of a descriptor field. -/
def wide (n : Nat) : List UInt8 := LittleEndian.encode 2 n

/-- The value that selects the only configuration. -/
def defaultConfiguration : UInt8 := 1

/-- The device descriptor: USB 2.0, class given by the interface, strings 1 to 3, one
configuration. -/
def deviceDescriptor : List UInt8 :=
  descriptor .device
    (wide 0x0200 ++ [0, 0, 0, UInt8.ofNat maxPacket] ++ wide vendorId ++ wide productId ++
      wide deviceRelease ++ [1, 2, 3, 1])

/-- The interface descriptor: number 0, two endpoints, a class of the vendor's own. -/
def interfaceDescriptor : List UInt8 :=
  descriptor .interface [0, 0, 2, 0xFF, 0, 0, 0]

/-- The bulk endpoint of the flash protocol in one direction. -/
def endpointDescriptor (dir : Direction) : List UInt8 :=
  let address : UInt8 :=
    match dir with
    | .toDevice => flashEndpoint
    | .toHost => 0x80 + flashEndpoint
  descriptor .endpoint ([address, 0x02] ++ wide maxPacket ++ [0])

/-- What the configuration owns, in the order the host expects. -/
def configurationParts : List (List UInt8) :=
  [interfaceDescriptor, endpointDescriptor .toDevice, endpointDescriptor .toHost]

/-- The configuration descriptor: the length of the whole chain, one interface, powered by the
bus. -/
def configurationDescriptor : List UInt8 :=
  let total := 9 + configurationParts.flatten.length
  descriptor .configuration (wide total ++ [1, defaultConfiguration, 0, 0x80, maxPower])

/-- A text in two bytes per character.  The texts here are ASCII. -/
def stringDescriptor (text : String) : List UInt8 :=
  descriptor .string (text.toList.flatMap fun c => wide c.toNat)

/-- The list of languages: US English only. -/
def languageDescriptor : List UInt8 :=
  descriptor .string (wide 0x0409)

/-! ## Serving descriptors -/

/-- The descriptors a device serves. -/
structure Descriptors where
  device : List UInt8 := deviceDescriptor
  /-- The configuration descriptor and what it owns. -/
  configuration : List (List UInt8) := configurationDescriptor :: configurationParts
  /-- The strings.  The first is the list of languages. -/
  strings : List (List UInt8) :=
    [languageDescriptor, stringDescriptor manufacturerText, stringDescriptor productText,
      stringDescriptor serialText]
deriving DecidableEq, Repr

namespace Descriptors

/-- The descriptor of a kind and index. -/
def find? (d : Descriptors) (kind index : UInt8) : Option Payload :=
  if kind = DescriptorKind.device.toByte then some (.bytes d.device)
  else if kind = DescriptorKind.configuration.toByte then
    if index = 0 then some (.chain d.configuration) else none
  else if kind = DescriptorKind.string.toByte then d.strings[index.toNat]?.map .bytes
  else none

/-- The value that selects the configuration: the sixth byte of its descriptor. -/
def configurationValue (d : Descriptors) : UInt8 :=
  match d.configuration with
  | [] => defaultConfiguration
  | part :: _ => part.getD 5 defaultConfiguration

end Descriptors

/-- The length field of the configuration descriptor counts the whole chain. -/
theorem length_configuration :
    LittleEndian.field configurationDescriptor 2 2 =
      (configurationDescriptor :: configurationParts).flatten.length := by
  decide

example : ({} : Descriptors).configurationValue = 1 := by decide

end FlashProgrammer.Usb

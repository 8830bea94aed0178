/-
Why a request is not decoded. Every error carries the value of the wire that is at fault.
-/
import PacketForwarder.Downlink.Request
import PacketForwarder.Json.Printer
import PacketForwarder.Modulation.Basic
import PacketForwarder.Text.Base64

namespace PacketForwarder

/-- why a request is not decoded -/
inductive DecodeError where
  /-- no record of the request's fields -/
  | malformed (fault : Json.Fault)
  | unknownModulation (modu : String)
  /-- text where a number has to be, or the other way round -/
  | datarateType (modulation : Modulation) (datr : Json)
  | datarateFormat (datr : String)
  | unknownBandwidth (datr : String) (khz : Nat)
  | unknownCodingRate (codr : String)
  | payload (data : String) (fault : Base64.Fault)
  /-- not exactly one scheduling field, where the policy asks for one -/
  | schedule (found : List Request.ScheduleField)

namespace DecodeError

def message : DecodeError → String
  | malformed fault => "malformed txpk: " ++ fault.message
  | unknownModulation modu => "unknown modulation: " ++ quoted modu
  | datarateType modulation datr =>
    "datr has the wrong type for " ++ modulation.wireName ++ ": " ++ datr.compact
  | datarateFormat datr => "can not parse lora datarate " ++ quoted datr
  | unknownBandwidth datr khz =>
    "can not parse lora datarate " ++ quoted datr ++ s!": unknown bandwidth {khz}"
  | unknownCodingRate codr => "can not parse lora coderate: " ++ quoted codr
  | payload data fault => "can not decode data " ++ quoted data ++ ": " ++ fault.message
  | schedule found =>
    "expected exactly one of imme / tmst / tmms, found [" ++
      ", ".intercalate (found.map fun f => quoted f.name) ++ "]"

end DecodeError

end PacketForwarder

import TokenBridge.Asset
import TokenBridge.Json.Printer
/-!
The JSON form of ledger messages. The call of a contract travels as the base64 of its own JSON text.
-/
namespace TokenBridge.LedgerMessage

def toJson : LedgerMessage → Json
  | send recipient denom amount =>
    let coin := Json.record [("denom", Wire.toJson denom), ("amount", Wire.toJson amount)]
    .record [("bank", .choice "send"
      [("to_address", Wire.toJson recipient), ("amount", .list [coin])])]
  | call contract request =>
    .record [("wasm", .choice "execute"
      [("contract_addr", Wire.toJson contract),
        ("msg", Wire.toJson (Blob.mk (Text.utf8 request.toJson.write))),
        ("funds", .list [])])]

end TokenBridge.LedgerMessage

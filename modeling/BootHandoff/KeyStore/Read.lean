/-
# The encrypted key store

The product data keeps an encrypted key store under the key `eks`, in
hexadecimal digits, which are decoded in place, by any `Decoder`.  The buffer for
it is zeroed first, and again after a value that cannot be decoded, so nobody sees
part of a key store or anything that lay there before.
-/

import BootHandoff.KeyStore.Digits
import BootHandoff.Platform.Action

namespace BootHandoff
namespace KeyStore

open Platform

/-- Why there is no key store to be had. -/
inductive Error where
  /-- The product data has none. -/
  | missing
  /-- The value has more digits than the buffer has room for. -/
  | tooLong (digits max : Nat)
  /-- The value is not bytes in hexadecimal. -/
  | undecodable
  deriving DecidableEq, Repr

def Error.label : Error → String
  | .missing => "Missing"
  | .tooLong .. => "TooLong"
  | .undecodable => "Decode"

def Error.message : Error → String
  | .missing => "no EKS entry in VPD"
  | .tooLong digits max => s!"EKS of {digits} hex digits does not fit {max} bytes"
  | .undecodable => "EKS hex decode failed"

/-- The key under which the product data keeps the key store. -/
def key : String := "eks"

/-- Decodes the key store to the front of the buffer at hand and returns its
size; `find` looks a key up in the product data. -/
def readWith (decoder : Decoder) {n : Nat} (find : String → Firmware (Option Bytes)) :
    Action (Buffer n) Error Nat := do
  set (Buffer.zero n)
  match ← find key with
  | none =>
    Firmware.log .error "EKS read failure"
    fail Error.missing
  | some value =>
    if h : value.length ≤ 2 * n then
      let (result, area) := decoder value ((← get).front (value.length / 2) (by omega))
      modify fun buf => buf.overwrite area.bytes
      match result with
      | .ok () => return value.length / 2
      | .error e =>
        Firmware.log .warn s!"EKS digit decode error: {e.message}"
        set (Buffer.zero n)
        fail Error.undecodable
    else
      Firmware.log .error "EKS read failure"
      fail (Error.tooLong value.length n)

/-- Reads the key store out of the product data of the platform. -/
def read (decoder : Decoder) {n : Nat} : Action (Buffer n) Error Nat :=
  readWith decoder Firmware.productData

end KeyStore
end BootHandoff

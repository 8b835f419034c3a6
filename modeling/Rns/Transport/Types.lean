import Rns.Packet

/-!
# Types of the transport engine

Interfaces and the time a packet takes on them.  Times are exact rationals.
-/

namespace Rns.Transport

abbrev InterfaceId := UInt64

/-- `usize::MAX`, which stands for no limit in the configuration. -/
def usizeMax : ℕ := 2 ^ 64 - 1

/-- How long a packet takes on an interface that is not described by a bit rate. -/
inductive AirtimeProfile where
  | lora (bandwidth spreadingFactor codingRate preambleSymbols : ℕ) (explicitHeader crc : Bool)
  deriving DecidableEq

def loraAirtimeSecs (payloadLen bandwidth spreadingFactor codingRate preambleSymbols : ℕ)
    (explicitHeader crc : Bool) : ℚ :=
  if bandwidth = 0 ∨ spreadingFactor = 0 then 0
  else
    let sf : ℚ := spreadingFactor
    let symbolTime : ℚ := 2 ^ spreadingFactor / bandwidth
    let de : ℚ := if spreadingFactor ≥ 11 ∧ bandwidth ≤ 125000 then 1 else 0
    let ih : ℚ := if explicitHeader then 0 else 1
    let crcBits : ℚ := if crc then 1 else 0
    let denominator := 4 * (sf - 2 * de)
    if denominator ≤ 0 then 0
    else
      let numerator := 8 * payloadLen - 4 * sf + 28 + 16 * crcBits - 20 * ih
      let payloadSymbols : ℚ := 8 + max ⌈numerator / denominator⌉ 0 * codingRate
      let preambleTime := (preambleSymbols + 17 / 4) * symbolTime
      preambleTime + payloadSymbols * symbolTime

def AirtimeProfile.transmitTimeSecs (profile : AirtimeProfile) (payloadLen : ℕ) : ℚ :=
  match profile with
  | .lora bandwidth spreadingFactor codingRate preambleSymbols explicitHeader crc =>
    loraAirtimeSecs payloadLen bandwidth spreadingFactor codingRate preambleSymbols explicitHeader crc

end Rns.Transport

/-
Units of the wire. Frequencies are megahertz there and whole hertz in a packet, and a frequency deviation
is hertz there and whole kilohertz in a packet. The arithmetic is that of doubles, one rounding for each
operation, and the results are clamped to their words.
-/
import PacketForwarder.Number.Decimal

namespace PacketForwarder

namespace Frequency

/-- hertz of a megahertz -/
def megahertz : Double := .ofInt .double 1000000

/-- a millihertz: nearer than this to a whole number of hertz counts as that number -/
def snap : Double := Decimal.toBinary .double ⟨false, 1, -3⟩

def maxHertz : Nat := 4294967295

/-- Whole hertz of megahertz. The fraction is dropped, unless the nearest whole number is within the snap,
so that a frequency written with six decimals is exact. -/
def ofMegahertz (mhz : Double) : UInt32 :=
  let hz := mhz.mul megahertz
  let nearest := hz.nearestWhole
  .ofNat <|
    if ((hz.sub nearest).abs).lt snap then nearest.clamp maxHertz else hz.whole.clamp maxHertz

/-- megahertz of hertz -/
def toMegahertz (hz : UInt32) : Double := (Binary.ofInt .double hz.toNat).div megahertz

end Frequency

namespace Deviation

/-- hertz of a kilohertz -/
def kilohertz : Double := .ofInt .double 1000

/-- whole kilohertz of hertz, at most 255 -/
def ofHertz (hz : Double) : UInt8 := .ofNat ((hz.div kilohertz).clamp 255)

end Deviation

end PacketForwarder

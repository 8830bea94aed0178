/-
LoRa bandwidths. Each has a code, its size in hertz, and a label in kilohertz with at most one decimal;
the whole kilohertz alone tell them apart.
-/

namespace PacketForwarder

/-- a LoRa bandwidth, named by its whole kilohertz -/
inductive Bandwidth where
  | khz7
  | khz10
  | khz15
  | khz20
  | khz31
  | khz41
  | khz62
  | khz125
  | khz250
  | khz500
  deriving DecidableEq

namespace Bandwidth

def all : List Bandwidth := [khz7, khz10, khz15, khz20, khz31, khz41, khz62, khz125, khz250, khz500]

def code : Bandwidth → Nat
  | khz7 => 1
  | khz10 => 2
  | khz15 => 3
  | khz20 => 4
  | khz31 => 5
  | khz41 => 6
  | khz62 => 7
  | khz125 => 8
  | khz250 => 9
  | khz500 => 10

def hertz : Bandwidth → Nat
  | khz7 => 7800
  | khz10 => 10400
  | khz15 => 15600
  | khz20 => 20800
  | khz31 => 31200
  | khz41 => 41700
  | khz62 => 62500
  | khz125 => 125000
  | khz250 => 250000
  | khz500 => 500000

/-- kilohertz, without the fraction -/
def wholeKhz (b : Bandwidth) : Nat := b.hertz / 1000

/-- kilohertz, with one decimal where there is a fraction -/
def label (b : Bandwidth) : String :=
  let tenths := b.hertz % 1000 / 100
  toString b.wholeKhz ++ if tenths = 0 then "" else s!".{tenths}"

/-- the part of a datarate that names the bandwidth -/
def datarateLabel (b : Bandwidth) : String := "BW" ++ b.label

/-- the bandwidth with its unit -/
def text (b : Bandwidth) : String := b.label ++ " kHz"

/-- the name in a description -/
def name : Bandwidth → String
  | khz7 => "Bw7k8"
  | khz10 => "Bw10k4"
  | khz15 => "Bw15k6"
  | khz20 => "Bw20k8"
  | khz31 => "Bw31k2"
  | khz41 => "Bw41k7"
  | khz62 => "Bw62k5"
  | khz125 => "Bw125k"
  | khz250 => "Bw250k"
  | khz500 => "Bw500k"

def ofCode? (n : Nat) : Option Bandwidth := all.find? (·.code = n)

def ofWholeKhz? (n : Nat) : Option Bandwidth := all.find? (·.wholeKhz = n)

def ofHertz? (n : Nat) : Option Bandwidth := all.find? (·.hertz = n)

def unsupported : String := "unsupported bandwidth"

end Bandwidth

end PacketForwarder

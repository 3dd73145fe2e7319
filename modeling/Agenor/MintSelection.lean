import Agenor.Lib.DoWhile
import Agenor.Lib.ChangeMaking
import Agenor.Zerocoin

/-!
Choosing the zerocoin mints to spend for an amount (`denomination_functions.cpp`).

First the amount is to be met exactly, by the greedy choice, which finds a payment if there is one
since each denomination divides the next. Failing that, or when it takes too many spends, a set of
mints is chosen that is worth more, with little change. Counts and amounts are integers without
bound: none gets beyond the target by more than the largest coin. `fuel` bounds the passes of each
loop.
-/

namespace Agenor

open Lib Lib.ChangeMaking CoinDenomination

/-- `std::map<libzerocoin::CoinDenomination, CAmount>`, with a value for every denomination. -/
abbrev DenomMap := CoinDenomination → ℤ

structure CMintMeta where
  hashSerial : Uint256
  denom : CoinDenomination
  isUsed : Bool
  deriving DecidableEq

namespace Mints

def add (m : DenomMap) (denom : CoinDenomination) (n : ℤ) : DenomMap :=
  Function.update m denom (m denom + n)

def getNumberOfCoinsUsed (mapChange : DenomMap) : ℤ := (zerocoinDenomList.map mapChange).sum

def getMaxDenomHeld (mapCoinsHeld : DenomMap) : CoinDenomination :=
  (zerocoinDenomList.reverse.find? fun coin => mapCoinsHeld coin ≠ 0).getD ZQ_ERROR

/-- What the loops over the denominations keep. `AmountUsed` is not kept by all of them. -/
structure Taking where
  mapOfDenomsUsed : DenomMap
  nRemainingValue : ℤ
  amountUsed : ℤ

def Taking.init (nValueTarget : ℤ) : Taking := ⟨fun _ => 0, nValueTarget, 0⟩

def Taking.take (denom : CoinDenomination) (s : Taking) : Taking where
  mapOfDenomsUsed := add s.mapOfDenomsUsed denom 1
  nRemainingValue := s.nRemainingValue - denom.toAmount
  amountUsed := s.amountUsed + denom.toAmount

variable (fuel : ℕ)

/-- Takes coins of one denomination as long as the condition on the remaining value holds, and there
are some. -/
def takeWhile (more : ℤ → Bool) (mapOfDenomsHeld : DenomMap) (denom : CoinDenomination) :
    Taking → Option Taking :=
  repeatWhile (fun s => more s.nRemainingValue && s.mapOfDenomsUsed denom < mapOfDenomsHeld denom)
    (·.take denom) fuel

def getSpendCoins (nValueTarget : ℤ) (mapOfDenomsHeld : DenomMap) : Option DenomMap :=
  (zerocoinDenomList.reverse.foldlM (fun s coin =>
    takeWhile fuel (fun nRemainingValue => coin.toAmount ≤ nRemainingValue) mapOfDenomsHeld coin s)
    (Taking.init nValueTarget)).map (·.mapOfDenomsUsed)

def getChange (nValueTarget : ℤ) : Option DenomMap :=
  (zerocoinDenomList.reverse.foldlM (fun s coin =>
    repeatWhile (fun s => coin.toAmount ≤ s.nRemainingValue) (·.take coin) fuel s)
    (Taking.init nValueTarget)).map (·.mapOfDenomsUsed)

/-- The loop over the mints, for one denomination. -/
def idealCoin (coin : CoinDenomination) : List CMintMeta → Taking → Taking
  | [], s => s
  | mint :: listMints, s =>
    if mint.isUsed then idealCoin coin listMints s
    else
      let s := if coin.toAmount ≤ s.nRemainingValue ∧ coin = mint.denom then s.take coin else s
      if s.nRemainingValue < coin.toAmount then s else idealCoin coin listMints s

/-- The return value and `mapOfDenomsUsed`. -/
def getIdealSpends (nValueTarget : ℤ) (listMints : List CMintMeta) : Bool × DenomMap :=
  let s := zerocoinDenomList.reverse.foldl (fun s coin => idealCoin coin listMints s)
    (Taking.init nValueTarget)
  (s.nRemainingValue = 0, s.mapOfDenomsUsed)

structure Spends where
  vSelectedMints : List CMintMeta
  nCoinsSpentValue : ℤ
  mapOfDenomsUsed : DenomMap

def spendMint (coin : CoinDenomination) (s : Spends) (mint : CMintMeta) : Spends :=
  if mint.isUsed then s
  else if coin = mint.denom ∧ s.mapOfDenomsUsed coin ≠ 0 then
    ⟨s.vSelectedMints ++ [mint], s.nCoinsSpentValue + coin.toAmount,
      add s.mapOfDenomsUsed coin (-1)⟩
  else s

/-- `vSelectedMints` and `nCoinsSpentValue`; the mints are gone through again while coins are to be
used. -/
def getSpends (listMints : List CMintMeta) (mapOfDenomsUsed : DenomMap) : Option Spends :=
  zerocoinDenomList.reverse.foldlM (fun s coin =>
    doWhile (fun s => s.mapOfDenomsUsed coin ≠ 0) (fun s => listMints.foldl (spendMint coin) s)
      fuel s) ⟨[], 0, mapOfDenomsUsed⟩

def getNextLowerDenomHeld (thisDenom : CoinDenomination) (mapCoinsHeld : DenomMap) :
    CoinDenomination :=
  (zerocoinDenomList.reverse.find? fun denom =>
    denom.toInt < thisDenom.toInt ∧ mapCoinsHeld denom ≠ 0).getD ZQ_ERROR

/-- "Now work way back up from the bottom": one coin that is worth more than the remaining value. -/
def fillUp (mapOfDenomsHeld : DenomMap) : List CoinDenomination → Taking → Taking
  | [], s => s
  | denom :: denoms, s =>
    let s := if s.nRemainingValue < denom.toAmount ∧
      s.mapOfDenomsUsed denom < mapOfDenomsHeld denom then s.take denom else s
    if s.nRemainingValue < 0 then s else fillUp mapOfDenomsHeld denoms s

/-- `mapAltChange`, `mapOfDenomsUsed` and `AmountUsed`. -/
structure Overlap where
  mapAltChange : DenomMap
  mapOfDenomsUsed : DenomMap
  amountUsed : ℤ

/-- "Check if there is overlap between change and spend denominations": for one of them. -/
def removeOverlap (denom : CoinDenomination) : Overlap → Option Overlap :=
  repeatWhile (fun s => s.mapAltChange denom ≠ 0 && s.mapOfDenomsUsed denom ≠ 0)
    (fun s => ⟨add s.mapAltChange denom (-1), add s.mapOfDenomsUsed denom (-1),
      s.amountUsed - denom.toAmount⟩) fuel

/-- The coins chosen in the first two stages, up to `nextToMaxDenom` and then from the bottom. -/
def minimizeStages (nextToMaxDenom : CoinDenomination) (nValueTarget : ℤ)
    (mapOfDenomsHeld : DenomMap) : Option Taking :=
  (zerocoinDenomList.reverse.foldlM (fun s denom =>
    if denom.toInt ≤ nextToMaxDenom.toInt then
      takeWhile fuel (fun nRemainingValue => denom.toAmount < nRemainingValue) mapOfDenomsHeld
        denom s
    else some s) (Taking.init nValueTarget)).map (fillUp mapOfDenomsHeld zerocoinDenomList)

/-- The number of coins in the change, and `mapOfDenomsUsed`. -/
def minimizeChange (nMaxNumberOfSpends nChangeCount : ℤ) (nextToMaxDenom : CoinDenomination)
    (nValueTarget : ℤ) (mapOfDenomsHeld mapOfDenomsUsed : DenomMap) : Option (ℤ × DenomMap) :=
  (minimizeStages fuel nextToMaxDenom nValueTarget mapOfDenomsHeld).bind fun s =>
  (getChange fuel (s.amountUsed - nValueTarget)).bind fun mapAltChange =>
  (zerocoinDenomList.foldlM (fun s denom => removeOverlap fuel denom s)
    ⟨mapAltChange, s.mapOfDenomsUsed, s.amountUsed⟩).bind fun s =>
  -- "So meet exact amount found above - with least number of coins"
  (getSpendCoins fuel s.amountUsed mapOfDenomsHeld).bind fun mapAltUsed =>
  (getChange fuel (s.amountUsed - nValueTarget)).map fun mapAltChange =>
    let altChangeCount := getNumberOfCoinsUsed mapAltChange
    if altChangeCount < nChangeCount ∧ getNumberOfCoinsUsed mapAltUsed ≤ nMaxNumberOfSpends then
      (altChangeCount, mapAltUsed)
    else (nChangeCount, mapOfDenomsUsed)

/-- "Try to meet a different way": coins from the largest down until the target is covered. -/
def cover (mapOfDenomsHeld : DenomMap) : List CoinDenomination → Taking → Option Taking
  | [], s => some s
  | denom :: denoms, s =>
    (doWhile (fun s => 0 < s.nRemainingValue && s.mapOfDenomsUsed denom < mapOfDenomsHeld denom)
      (fun s => if mapOfDenomsHeld denom ≠ 0 ∧ 0 < s.nRemainingValue then s.take denom else s)
      fuel s).bind fun s =>
    if s.nRemainingValue < 0 then some s else cover mapOfDenomsHeld denoms s

/-- The number of coins in the change, and `mapOfDenomsUsed`. -/
def calculateChange (nMaxNumberOfSpends nValueTarget : ℤ) (mapOfDenomsHeld : DenomMap) :
    Option (ℤ × DenomMap) :=
  match zerocoinDenomList.find? fun denom =>
    nValueTarget < denom.toAmount ∧ mapOfDenomsHeld denom ≠ 0 with
  | some minDenomOverTarget =>
    let single := add (fun _ => 0) minDenomOverTarget 1
    (getChange fuel (minDenomOverTarget.toAmount - nValueTarget)).bind fun mapChange =>
    let nChangeCount := getNumberOfCoinsUsed mapChange
    (minimizeChange fuel nMaxNumberOfSpends nChangeCount
      (getNextLowerDenomHeld minDenomOverTarget mapOfDenomsHeld) nValueTarget mapOfDenomsHeld
      single).map fun (newChangeCount, mapOfDenomsUsed) =>
    if newChangeCount < nChangeCount then (newChangeCount, mapOfDenomsUsed)
    else (nChangeCount, single)
  | none =>
    (cover fuel mapOfDenomsHeld zerocoinDenomList.reverse (Taking.init nValueTarget)).bind fun s =>
    (getChange fuel (s.amountUsed - nValueTarget)).bind fun mapChange =>
    minimizeChange fuel nMaxNumberOfSpends (getNumberOfCoinsUsed mapChange)
      (getMaxDenomHeld mapOfDenomsHeld) nValueTarget mapOfDenomsHeld s.mapOfDenomsUsed

/-- The mints and what is returned through references. -/
structure Selection where
  vSelectedMints : List CMintMeta
  nSelectedValue : ℤ
  nCoinsReturned : ℤ
  nNeededSpends : ℕ

def selectMintsFromList (nValueTarget nSelectedValue nMaxNumberOfSpends : ℤ)
    (listMints : List CMintMeta) (mapOfDenomsHeld : DenomMap) : Option Selection :=
  let ideal := getIdealSpends nValueTarget listMints
  let withChange (nSelectedValue : ℤ) (nNeededSpends : ℕ) : Option Selection :=
    (calculateChange fuel nMaxNumberOfSpends nValueTarget mapOfDenomsHeld).bind fun r =>
      -- "Problem getting change"
      if r.1 = 0 then some ⟨[], nSelectedValue, 0, nNeededSpends⟩
      else (getSpends fuel listMints r.2).map fun s =>
        ⟨s.vSelectedMints, s.nCoinsSpentValue, r.1, nNeededSpends⟩
  if ideal.1 then
    (getSpends fuel listMints ideal.2).bind fun s =>
      -- the bound is converted to `size_t`
      if s.vSelectedMints.length ≤ nMaxNumberOfSpends % 2 ^ 64 then
        some ⟨s.vSelectedMints, s.nCoinsSpentValue, 0, 0⟩
      else withChange s.nCoinsSpentValue s.vSelectedMints.length
  else withChange nSelectedValue 0

end Mints

end Agenor

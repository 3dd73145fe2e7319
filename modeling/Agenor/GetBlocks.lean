import Agenor.ActiveChain
import Agenor.BlockDownload
import Agenor.Lib.Draining

/-!
How a node gets the chain of a peer that it is far behind of (`main.cpp`): `getblocks`, `inv`,
`getdata` and `block` in `ProcessMessage`, `ProcessGetData`, and the inventory in `SendMessages`.

The peer announces 500 blocks at a time. When the last one of them is asked for it also announces
its tip, whose parent the node does not have yet, so that the node asks again where to go on. Blocks
and the entries of the index are given by their hashes.
-/

namespace Agenor

open Lib

def MAX_LOCATOR_SZ : ℕ := 101

/-- The messages; a block comes as its hash and the hash of the block before it. -/
inductive InvMsg
  | getblocks (vHave : List Uint256) (hashStop : Uint256)
  | inv (vInv : List Uint256)
  | getdata (vInv : List Uint256)
  | block (hash hashPrevBlock : Uint256)
  deriving DecidableEq, Repr

/-- What the peer has, while its chain stays as it is. -/
structure ServedChain where
  index : BlockMap Uint256
  chainActive : CChain Uint256
  /-- Whether a block that is not in the active chain is sent. -/
  sendsOffChain : Uint256 → Bool
  /-- `BLOCK_HAVE_DATA`. -/
  haveData : Uint256 → Bool

/-- What the peer keeps for the node. -/
structure InvServer where
  hashContinue : Uint256
  vInventoryToSend : List Uint256
  vRecvGetData : List Uint256
  fDisconnect : Bool

/-- The node. Every entry in its index has its data, so that no block is asked for but those that
are announced. -/
structure InvClient where
  index : BlockMap Uint256
  chainActive : CChain Uint256
  vBlockRequested : List Uint256
  fMisbehaving : Bool

/-- Both, and the messages on their way. -/
structure InvSync where
  server : InvServer
  client : InvClient
  toServer : List InvMsg
  toClient : List InvMsg

/-- What `ProcessNewBlock` makes of a block: with an entry in the index, and the tip that
`ActivateBestChain` leaves, or without one. The peer is punished by `nDoS`. -/
inductive BlockOutcome
  | accepted (tip : Uint256) (nDoS : ℕ)
  | refused (nDoS : ℕ)
  deriving DecidableEq, Repr

namespace ServedChain

variable (env : ServedChain)

def next (pindex : Uint256) : Option Uint256 :=
  if env.chainActive.contains env.index pindex then
    env.chainActive.get (env.index.nHeight pindex + 1)
  else none

def findForkInGlobalIndex (vHave : List Uint256) : Option Uint256 :=
  match vHave.find? fun hash => env.index.mapBlockIndex.contains hash &&
      env.chainActive.contains env.index hash with
  | some hash => some hash
  | none => env.chainActive.get 0

/-- The loop of `getblocks`: what is pushed, and the new `hashContinue` when it stops at its
limit. -/
def pushBlocks (hashStop : Uint256) : ℕ → Option Uint256 → List Uint256 × Option Uint256
  | 0, _ => ([], none)
  | _ + 1, none => ([], none)
  | nLimit + 1, some pindex =>
    if pindex = hashStop then ([], none)
    else if nLimit = 0 then ([pindex], some pindex)
    else
      let r := pushBlocks hashStop nLimit (env.next pindex)
      (pindex :: r.1, r.2)

def getBlocks (p : InvServer) (vHave : List Uint256) (hashStop : Uint256) : InvServer :=
  if MAX_LOCATOR_SZ < vHave.length then { p with fDisconnect := true }
  else
    let pindex := (env.findForkInGlobalIndex vHave).bind env.next
    let r := env.pushBlocks hashStop 500 pindex
    { p with
      vInventoryToSend := p.vInventoryToSend ++ r.1
      hashContinue := r.2.getD p.hashContinue }

/-- Whether a block that is asked for is sent. -/
def sends (hash : Uint256) : Bool :=
  env.index.mapBlockIndex.contains hash &&
    (env.chainActive.contains env.index hash || env.sendsOffChain hash) && env.haveData hash

/-- `ProcessGetData`, which stops after a block; `none` when a null pointer is followed. -/
def processGetData (p : InvServer) (fPauseSend : Bool) : Option (InvServer × List InvMsg) :=
  match p.vRecvGetData with
  | [] => some (p, [])
  | hash :: rest =>
    if fPauseSend then some (p, [])
    else
      let p := { p with vRecvGetData := rest }
      if env.sends hash then
        let block := InvMsg.block hash ((env.index.pprev hash).getD 0)
        if hash = p.hashContinue then
          env.chainActive.tip.map fun tip => ({ p with hashContinue := 0 }, [block, .inv [tip]])
        else some (p, [block])
      else some (p, [])

/-- `ProcessMessage` of the peer. It gets no announcements and no blocks from the node. -/
def serve (p : InvServer) (fPauseSend : Bool) : InvMsg → Option (InvServer × List InvMsg)
  | .getblocks vHave hashStop => some (env.getBlocks p vHave hashStop, [])
  | .getdata vInv =>
    if MAX_INV_SZ < vInv.length then some ({ p with fDisconnect := true }, [])
    else env.processGetData { p with vRecvGetData := p.vRecvGetData ++ vInv } fPauseSend
  | .inv _ => some (p, [])
  | .block _ _ => some (p, [])

end ServedChain

/-- The inventory in `SendMessages`, for blocks. -/
def sendInventory (vInventoryToSend : List Uint256) : List InvMsg :=
  let r := vInventoryToSend.foldl (fun (r : List InvMsg × List Uint256) inv =>
    let vInv := r.2 ++ [inv]
    if 1000 ≤ vInv.length then (r.1 ++ [.inv vInv], []) else (r.1, vInv)) ([], [])
  if r.2.isEmpty then r.1 else r.1 ++ [.inv r.2]

namespace InvClient

variable (c : InvClient)

def inv (vInv : List Uint256) : InvClient × List InvMsg :=
  if MAX_INV_SZ < vInv.length then ({ c with fMisbehaving := true }, [])
  else
    let vToFetch := vInv.filter fun hash => !c.index.mapBlockIndex.contains hash
    (c, if vToFetch.isEmpty then [] else [.getdata vToFetch])

def misbehaving (nDoS : ℕ) : InvClient :=
  { c with fMisbehaving := c.fMisbehaving || decide (0 < nDoS) }

-- what the validation says of a block
variable (outcome : InvClient → Uint256 → BlockOutcome)

def processNewBlock (hash hashPrevBlock : Uint256) : Option InvClient :=
  match outcome c hash with
  | .accepted tip nDoS =>
    (c.index.addToBlockIndex hash (some hashPrevBlock)).bind fun index =>
      (c.chainActive.setTip index (some tip)).map fun chainActive =>
        { c with index, chainActive }.misbehaving nDoS
  | .refused nDoS => some (c.misbehaving nDoS)

def block (hash hashPrevBlock : Uint256) : Option (InvClient × List InvMsg) :=
  if !c.index.mapBlockIndex.contains hashPrevBlock then
    (c.chainActive.getLocator c.index id none).map fun vHave =>
      if c.vBlockRequested.contains hash then
        ({ c with vBlockRequested := c.vBlockRequested ++ [hashPrevBlock] },
          [.getblocks vHave hashPrevBlock])
      else
        ({ c with vBlockRequested := c.vBlockRequested ++ [hash] }, [.getblocks vHave hash])
  else if c.index.mapBlockIndex.contains hash then some (c, [])
  else (c.processNewBlock outcome hash hashPrevBlock).map fun c => (c, [])

/-- `ProcessMessage` of the node. It gets no requests. -/
def receive : InvMsg → Option (InvClient × List InvMsg)
  | .inv vInv => some (c.inv vInv)
  | .block hash hashPrevBlock => c.block outcome hash hashPrevBlock
  | .getblocks _ _ => some (c, [])
  | .getdata _ => some (c, [])

/-- The start of the synchronisation in `SendMessages`. -/
def startSync : Option InvSync :=
  (c.chainActive.getLocator c.index id c.chainActive.tip).map fun vHave =>
    ⟨⟨0, [], [], false⟩, c, [.getblocks vHave 0], []⟩

end InvClient

namespace InvSync

/-- What can happen next. The peer takes no message while there is something in `vRecvGetData`. -/
inductive Step (env : ServedChain) (outcome : InvClient → Uint256 → BlockOutcome) :
    InvSync → InvSync → Prop
  | serve {st : InvSync} {m : InvMsg} {rest msgs : List InvMsg} {server : InvServer}
      (fPauseSend : Bool) (hm : st.toServer = m :: rest) (hdata : st.server.vRecvGetData = [])
      (hs : env.serve st.server fPauseSend m = some (server, msgs)) :
      Step env outcome st { st with server, toServer := rest, toClient := st.toClient ++ msgs }
  | send {st : InvSync} {msgs : List InvMsg} {server : InvServer}
      (hdata : st.server.vRecvGetData ≠ [])
      (hs : env.processGetData st.server false = some (server, msgs)) :
      Step env outcome st { st with server, toClient := st.toClient ++ msgs }
  | announce {st : InvSync} (hinv : st.server.vInventoryToSend ≠ []) :
      Step env outcome st { st with
        server := { st.server with vInventoryToSend := [] }
        toClient := st.toClient ++ sendInventory st.server.vInventoryToSend }
  | receive {st : InvSync} {m : InvMsg} {rest msgs : List InvMsg} {client : InvClient}
      (hm : st.toClient = m :: rest) (hc : st.client.receive outcome m = some (client, msgs)) :
      Step env outcome st { st with client, toClient := rest, toServer := st.toServer ++ msgs }

/-- The height at which the node comes to rest, for the heights at which it started and that of the
tip of the peer. -/
def restHeight (nStart nTip : ℕ) : ℕ :=
  if nTip ≤ nStart + 501 ∨ nTip = nStart + 1001 then nTip
  else if nTip ≤ nStart + 1000 then nTip - 1
  else nTip - 2

end InvSync

end Agenor

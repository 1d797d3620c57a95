import TokenBridge.Observing
/-!
What anyone may call once a block: observation, the end of batches that timed out, and a new signer set
if power has drifted.
-/
namespace TokenBridge.Housekeeping

def endBlock (block : Block) : Action Response := do
  let observations ← Observing.observe .stored block
  let dissolved ← Batching.dissolveExpired
  let stored ← SignerSet.storeDrifted .stored block.height
  return (Response.of "end_block"
    ([("observed_count", toString observations.length),
      ("timed_out_batches", toString dissolved.length)]
      ++ (stored.map fun set => ("valset_nonce", toString set.nonce)).toList)).observing observations

end TokenBridge.Housekeeping

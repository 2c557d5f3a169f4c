import ThletEvaluation.Shinjuku.Mempool

/-!
# Contexts and their stacks

`context.c`: two pools as static data, one of `kcontext_t` records and one of stacks, and
the two functions that take a pair from them and give it back. Nothing in this file, and
nothing else in the module, calls `mempool_create`.
-/

namespace ThletEvaluation.Shinjuku

set_option autoImplicit false

/-- The static data of `context.c`, the links inside the free elements, and `stack_base` of
the record at each address. -/
structure ContextPools where
  mem : Addr → MempoolHdr
  stackBase : Addr → Addr
  contextDatastore : MempoolDatastore
  contextPool : Mempool
  stackDatastore : MempoolDatastore
  stackPool : Mempool

namespace ContextPools

def contextArena (p : ContextPools) : Arena := ⟨p.mem, p.contextDatastore, p.contextPool⟩

def stackArena (p : ContextPools) : Arena := ⟨p.mem, p.stackDatastore, p.stackPool⟩

def setContexts (p : ContextPools) (r : Arena) : ContextPools :=
  { p with mem := r.mem, contextDatastore := r.mds, contextPool := r.m }

def setStacks (p : ContextPools) (r : Arena) : ContextPools :=
  { p with mem := r.mem, stackDatastore := r.mds, stackPool := r.m }

end ContextPools

/-- `none` stands for the return value `-1`. -/
def contextAlloc (p : ContextPools) : Except Bug (Option Addr × ContextPools) := do
  let (cont, r) ← mempoolAlloc p.contextArena
  let p := p.setContexts r
  if cont = NULL then return (none, p)
  let (stack, r) ← mempoolAlloc p.stackArena
  let p := p.setStacks r
  if stack = NULL then
    let r ← mempoolFree p.contextArena cont
    return (none, p.setContexts r)
  return (some cont, { p with stackBase := Function.update p.stackBase cont stack })

def contextFree (p : ContextPools) (c : Addr) : Except Bug ContextPools := do
  let r ← mempoolFree p.stackArena (p.stackBase c)
  let p := p.setStacks r
  let r ← mempoolFree p.contextArena c
  return p.setContexts r

/-- A pool that no `mempool_create` has prepared fails the first assertion of the second
stage. -/
theorem contextAlloc_of_zeroed {p : ContextPools} (h : p.contextPool = {}) :
    contextAlloc p = .error .allocMagic := by
  have halloc : mempoolAlloc p.contextArena = .error .allocMagic := by
    simp [mempoolAlloc, mempoolAlloc2, ContextPools.contextArena, h, MEMPOOL_MAGIC]
  simp [contextAlloc, halloc, bind, Except.bind]

end ThletEvaluation.Shinjuku

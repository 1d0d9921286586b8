import OutRelay.Splice

/-!
# A stream that is spliced more than once

The bytes of a stream between agents on different relays are copied by both: one
splices the consumer's stream with that to its peer, the other the stream from its
peer with the provider's. What holds of a single splice is of no use to the agents
unless it composes.

It does. A direction of the stream is a list of hops, one for each relay, and the
transport between two hops carries what is written at one end to the other, in
order, and reports `EOF` when the writer has sent a FIN and everything before it
has been read (`Carries`). Whatever breaks, and wherever, what arrives at the far end
is a beginning of what was sent. And a FIN at the far end says that every hop has
ended cleanly and all of it has arrived, as long as no hop stops on a false `EOF`
(`chain_truthful`). A provider that sees a FIN may take it for the consumer's.
-/

section Chain

variable {β ε : Type}

/-- The first error of a source, with which it ends. -/
def sourceEnd : List (ReadResult β ε) → Option ε
  | [] => none
  | r :: reads => r.err.or (sourceEnd reads)

/-- **One hop**: a relay copies from `src` to `dst`. -/
structure Hop (β ε : Type) where
  src : SpliceStream β ε
  dst : SpliceStream β ε

variable [DecidableEq ε] (E : SpliceErrors ε)

/-- What a hop has done so far. -/
def Hop.copied (g : Hop β ε) : OneWay β ε := copyOne E g.dst g.src

/-- The copy of the hop has ended, with `x`. -/
def Hop.Ended (g : Hop β ε) (x : Option ε) : Prop := Ends E.toCopyErrors g.src.reads g.dst.writes x

omit [DecidableEq ε] in
/-- **What is read at one end of a transport stream was written at the other**: the
bytes in their order, and `EOF` after a FIN, when there are no more of them. A stream
that has been reset, or has just broken, is read with some other error. -/
structure Carries (o : OneWay β ε) (reads : List (ReadResult β ε)) : Prop where
  bytes : sourceBytes reads <+: o.delivered
  eof : sourceEnd reads = some E.eof → o.signals = [.closeWrite] ∧ sourceBytes reads = o.delivered

/-- **The way of a stream through one relay after the other.** -/
def Linked (hops : List (Hop β ε)) : Prop :=
  hops.IsChain (fun g g' => Carries E (g.copied E) g'.src.reads)

variable {E} {g : Hop β ε} {hops : List (Hop β ε)}

omit [DecidableEq ε] in
/-- A copy that ends cleanly has read `EOF`. -/
theorem Ends.sourceEnd_eq {F : CopyErrors ε} {reads : List (ReadResult β ε)}
    {writes : List (WriteResult ε)} (h : Ends F reads writes none) :
    sourceEnd reads = some F.eof := by
  generalize hx : (none : Option ε) = x at h
  induction h with
  | eof hw hr =>
    unfold sourceEnd
    rw [hr]
    rfl
  | readError | writeError => cases hx
  | more hw hr _ ih =>
    unfold sourceEnd
    rw [hr]
    exact ih hx

theorem Hop.delivered_prefix (g : Hop β ε) :
    (g.copied E).delivered <+: sourceBytes g.src.reads := by
  unfold Hop.copied
  rw [copyOne_delivered]
  exact (copyBuffer_delivered _ _ _).1

/-- The last hop of a way that starts with `g`. -/
def lastHop (g : Hop β ε) (hops : List (Hop β ε)) : Hop β ε := hops.getLastD g

omit [DecidableEq ε] in
theorem lastHop_cons (g g' : Hop β ε) (hops : List (Hop β ε)) :
    lastHop g (g' :: hops) = lastHop g' hops := List.getLastD_cons ..

omit [DecidableEq ε] in
theorem lastHop_mem (g : Hop β ε) (hops : List (Hop β ε)) : lastHop g hops ∈ g :: hops := by
  induction hops generalizing g with
  | nil => exact List.mem_singleton_self g
  | cons g' hops ih =>
    rw [lastHop_cons]
    exact List.mem_cons_of_mem _ (ih g')

/-- **What arrives is a beginning of what was sent.** -/
theorem delivered_prefix_of_linked (hlink : Linked E (g :: hops)) :
    ((lastHop g hops).copied E).delivered <+: sourceBytes g.src.reads := by
  induction hops generalizing g with
  | nil => exact g.delivered_prefix
  | cons g' hops ih =>
    obtain ⟨hcarry, hrest⟩ := List.isChain_cons_cons.mp hlink
    rw [lastHop_cons]
    exact ((ih hrest).trans hcarry.bytes).trans g.delivered_prefix

/-- **A FIN at the far end vouches for every hop** before it. -/
theorem ended_of_fin (htrue : ∀ g' ∈ g :: hops, Truthful E g'.dst g'.src)
    (hlink : Linked E (g :: hops)) (hfin : ((lastHop g hops).copied E).signals = [.closeWrite]) :
    (∀ g' ∈ g :: hops, g'.Ended E none)
      ∧ ((lastHop g hops).copied E).delivered = sourceBytes g.src.reads := by
  induction hops generalizing g with
  | nil =>
    have htrue := htrue g List.mem_cons_self
    have hended : g.Ended E none := htrue.fin.mp hfin
    exact ⟨List.forall_mem_singleton.mpr hended, htrue.whole hended⟩
  | cons g' hops ih =>
    obtain ⟨hcarry, hrest⟩ := List.isChain_cons_cons.mp hlink
    rw [List.forall_mem_cons] at htrue
    rw [lastHop_cons] at hfin ⊢
    obtain ⟨hended, hall⟩ := ih htrue.2 hrest hfin
    -- the next relay has read `EOF`, so this one has sent its FIN
    obtain ⟨hsignals, hbytes⟩ := hcarry.eof (Ends.sourceEnd_eq (hended g' List.mem_cons_self))
    have hg : g.Ended E none := htrue.1.fin.mp hsignals
    exact ⟨List.forall_mem_cons.mpr ⟨hg, hended⟩, hall.trans (hbytes.trans (htrue.1.whole hg))⟩

end Chain

/-- Three bytes on their way from a consumer to a provider on another relay. The first
relay reads them in one piece, the second in two. -/
def consumerHop : Hop UInt8 GoError := ⟨threeBytes, quicStream [] [⟨3, none⟩]⟩

/-- The other relay. -/
def providerHop : Hop UInt8 GoError :=
  ⟨quicStream [⟨[1], none⟩, ⟨[2, 3], some .eof⟩] [], quicStream [] [⟨1, none⟩, ⟨2, none⟩]⟩

import FrequencySampling.Codec.Results
import FrequencySampling.DesignError.Message
import FrequencySampling.Proofs.Codec.Save
import FrequencySampling.Proofs.CutoffAcceptance
import FrequencySampling.Proofs.Decibels
import FrequencySampling.Proofs.Design.Journal
import FrequencySampling.Proofs.Design.Replay
import FrequencySampling.Proofs.GoldenSection.Least
import FrequencySampling.Proofs.GoldenSection.Questions
import FrequencySampling.Proofs.GoldenSection.Rescaling
import FrequencySampling.Proofs.GoldenSection.Unimodal
import FrequencySampling.Proofs.IndexSafety
import FrequencySampling.Proofs.Listing.Decoding
import FrequencySampling.Proofs.MirrorImage
import FrequencySampling.Proofs.Plane.FittedLine
import FrequencySampling.Proofs.PredictedCutoff
import FrequencySampling.Proofs.Session.Cancellation
import FrequencySampling.Proofs.Session.Forgetting
import FrequencySampling.Proofs.Session.Objective
import FrequencySampling.Proofs.Transform.FrequencyResponse
import FrequencySampling.Proofs.Transform.Inversion
import FrequencySampling.Proofs.UnityGain

/-!
Design of linear-phase filters by frequency sampling. A `HalfSpectrum` lays out bands and the
transition samples between them, an `ImpulseResponse` is synthesized from it, and a `ResponseGrid`
measures how far its stopband rises. Where the transition samples are not given, a golden section
search chooses one of them and a direction search in the unit square chooses two, so that the
stopband peak is least; a `Session` runs these searches and a `FilterDesign` is what comes of it.
Parameters and results are stored as JSON, taps and responses are listed as text.

All of this is written over one class of arithmetic, `Scalar`, with instances for doubles and for
the reals. The theory is under `Proofs`:

* filters: layout, placement of a cutoff, writes of transition samples, symmetry, index safety;
* transforms: synthesis interpolates, inverts sampling and has linear phase, and both methods of
  measuring agree; normalization, decibels, unity gain;
* searches: contracts and transcripts of search programs, golden section (frames, convergence, what
  is asked and heard), direction search (unit square, fitted lines, coincident minima);
* sessions and designs: account, cancellation, forgetting, coherence, replay, the journal;
* texts: what is stored or listed is read back.
-/

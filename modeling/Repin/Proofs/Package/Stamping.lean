/-
  Repin.Proofs.Package.Stamping
  ─────────────────────────────
  **STAMPING CHANGES THE VERSION AND NOTHING ELSE.**

  Stamping reads a descriptor, sets one member and writes the descriptor anew, in other
  words: other escapes, other blanks, other line ends.  What the descriptor says is the
  same but for the version (`setVersion_of_descriptor`):

    • the new text reads as the object that was read before, with the version set in its
      place, or behind all other members if there was none,
    • of two stampings only the later one leaves a trace: setting the member again
      replaces it (`stamped_stamped`), and so does writing the file again.

  Numbers that are no integers are left aside, since they are not written digit by digit
  as they were read.
-/
import Repin.Package
import Repin.Proofs.Json.RoundTrip
import Repin.Proofs.Manifest.Writing

namespace Repin
namespace Package

/-! ## §1. The members of a stamped descriptor. -/

/-- The members of a descriptor with a version stamped into it. -/
def stampedMembers (version : Text) (ms : Json.Members) : Json.Members :=
  Json.Members.set (CodePoint.ofText "version") (Json.ofText version) ms

theorem stamped_stamped (version first : Text) (ms : Json.Members) :
    stampedMembers version (stampedMembers first ms) = stampedMembers version ms :=
  Json.Members.set_set _ _ _ ms

theorem floatFree_stampedMembers {ms : Json.Members} (h : Json.FloatFree (.object ms))
    (version : Text) : Json.FloatFree (.object (stampedMembers version ms)) := by
  cases h with
  | object h =>
    apply Json.FloatFree.object
    intro m hm
    rcases Json.Members.mem_of_mem_set hm with rfl | hm
    · exact .string _
    · exact h m hm

theorem sound_stampedMembers {ms : Json.Members} (h : Json.Sound (.object ms)) (version : Text) :
    Json.Sound (.object (stampedMembers version ms)) := by
  cases h with
  | simple h => cases h
  | object hnodup hnames hvalues =>
    refine .object (Json.Members.nodup_set hnodup _ _) ?_ ?_
    · intro m hm
      rcases Json.Members.mem_of_mem_set hm with rfl | hm
      · exact Json.settled_ofText _
      · exact hnames m hm
    · intro m hm
      rcases Json.Members.mem_of_mem_set hm with rfl | hm
      · exact .string (Json.settled_ofText _)
      · exact hvalues m hm

/-! ## §2. One stamping. -/

variable {s : Site} {p : Path} {l : Location} {b : Bytes} {t : Text} {ms : Json.Members}

/-- The content of a stamped descriptor. -/
def stampedBytes (version : Text) (ms : Json.Members) : Bytes :=
  Text.encode (Json.object (stampedMembers version ms)).text

/-- The site with a stamped descriptor at a location. -/
def stampedAt (s : Site) (l : Location) (version : Text) (ms : Json.Members) : Site :=
  { s with tree := s.tree.put l (.file (stampedBytes version ms)) }

theorem on_readDescriptor {v : Json} (ht : s.textAt p = .ok t) (hv : Json.ofDocument t = .ok v) :
    Job.on (readDescriptor p) s = (.ok v, s) := by
  unfold readDescriptor
  simp only [Job.on_bind, Job.on_tryCatch, Job.on_readText, ht, hv, Job.on_ofExcept_ok]

theorem on_setVersion (h : s.tree.Holds s.here p l b) (ht : s.textAt p = .ok t)
    (hms : Json.ofDocument t = .ok (.object ms)) (version : Text) :
    Job.on (setVersion p version) s = (.ok (), stampedAt s l version ms) := by
  unfold setVersion
  rw [Job.on_bind_ok (on_readDescriptor ht hms)]
  exact Job.on_writeText_ok (h.write _)

theorem holds_stampedAt (h : s.tree.Holds s.here p l b) (version : Text) (ms : Json.Members) :
    (stampedAt s l version ms).tree.Holds s.here p l (stampedBytes version ms) :=
  h.put _

/-- A stamped descriptor is read again as it stands. -/
theorem textAt_stampedAt (h : s.tree.Holds s.here p l b) (hf : Json.FloatFree (.object ms))
    (version : Text) : (stampedAt s l version ms).textAt p
      = .ok (Json.object (stampedMembers version ms)).text := by
  rw [Site.textAt_of_holds (holds_stampedAt h version ms),
    Text.unified_eq_self (Json.return_notMem_text (floatFree_stampedMembers hf version))]

theorem stampedAt_stampedAt (s : Site) (l : Location) (version first : Text) (ms : Json.Members) :
    stampedAt (stampedAt s l first ms) l version (stampedMembers first ms)
      = stampedAt s l version ms := by
  unfold stampedAt stampedBytes
  rw [stamped_stamped, Tree.put_put]

/-! ## §3. What stamping changes. -/

/-- **Stamping a descriptor changes its version and nothing else.**  Of all files only the
descriptor is another one, which reads as the object that was read before with the version set.
Of two stampings the later one leaves what it leaves alone. -/
theorem setVersion_of_descriptor (ht : s.textAt p = .ok t)
    (hms : Json.ofDocument t = .ok (.object ms)) (hf : Json.FloatFree (.object ms))
    (version : Text) :
    (∃ l content after stamped, s.tree.locate s.here p = .ok l
        ∧ Job.on (setVersion p version) s
          = (.ok (), { s with tree := s.tree.put l (.file content) })
        ∧ (Job.on (setVersion p version) s).2.textAt p = .ok after
        ∧ Json.ofDocument after = .ok (.object stamped)
        ∧ Json.Members.IsSet (CodePoint.ofText "version") (Json.ofText version) ms stamped)
      ∧ ∀ first, Job.on (setVersion p first >>= fun _ => setVersion p version) s
          = Job.on (setVersion p version) s := by
  obtain ⟨l, b, hl, -⟩ := Site.exists_holds_of_textAt ht
  have hsound := Json.sound_of_ofDocument hms
  have hdocument : ∀ version, Json.ofDocument (Json.object (stampedMembers version ms)).text
      = .ok (.object (stampedMembers version ms)) := fun version =>
    Json.ofDocument_text (floatFree_stampedMembers hf version) (sound_stampedMembers hsound version)
  have hon := fun version => on_setVersion hl ht hms version
  constructor
  · refine ⟨l, stampedBytes version ms, _, _, hl.locate, hon version, ?_, hdocument version, ?_⟩
    · rw [hon version]
      exact textAt_stampedAt hl hf version
    · cases hsound with
      | simple h => cases h
      | object hnodup _ _ => exact Json.Members.isSet_set hnodup _ _
  · intro first
    have hagain := on_setVersion (holds_stampedAt hl first ms) (textAt_stampedAt hl hf first)
      (hdocument first) version
    rw [Job.on_bind_ok (hon first), hon version, hagain, stampedAt_stampedAt]

/-- A descriptor with a pair of surrogates, a lone one and a large integer, on one line. -/
def unevenDescriptor : Text :=
  "\x7b\"name\": \"p\\ud83d\\ude00\\ud800\", \"version\": \"0.1.0\","
    ++ " \"more\": [-12345678901234567890, \x7b\x7d]\x7d"

/-- A descriptor of two texts and an array of an integer and an object. -/
def isUneven : Json → Bool
  | .object [(_, .string _), (_, .string _), (_, .array [.int _, .object []])] => true
  | _ => false

theorem exists_of_isUneven {v : Json} (h : isUneven v = true) :
    ∃ ms, v = .object ms ∧ Json.FloatFree (.object ms) := by
  unfold isUneven at h
  split at h
  · refine ⟨_, rfl, .object ?_⟩
    simp only [List.forall_mem_cons]
    refine ⟨.string _, .string _, .array ?_, by simp⟩
    simp only [List.forall_mem_cons]
    exact ⟨.int _, .object (by simp), by simp⟩
  · cases h

def unevenSite : Site :=
  .fresh [(["package.json".toList], .file (Text.encode unevenDescriptor))]

/-- The descriptor of that site with another version. -/
def stampedDescriptor : Text :=
  "\x7b\n  \"name\": \"p\\ud83d\\ude00\\ud800\",\n  \"version\": \"2.0.0\",\n"
    ++ "  \"more\": [\n    -12345678901234567890,\n    \x7b\x7d\n  ]\n\x7d\n"

theorem setVersion_of_unevenSite :
    (Job.on (setVersion ⟨0, ["package.json"]⟩ "2.0.0") unevenSite).2.textAt ⟨0, ["package.json"]⟩
        = .ok stampedDescriptor
      ∧ (∃ before after, Json.ofDocument unevenDescriptor = .ok (.object before)
          ∧ Json.ofDocument stampedDescriptor = .ok (.object after)
          ∧ Json.Members.IsSet (CodePoint.ofText "version") (Json.ofText "2.0.0") before after)
      ∧ Job.on (setVersion ⟨0, ["package.json"]⟩ "1.0.0" >>= fun _ =>
            setVersion ⟨0, ["package.json"]⟩ "2.0.0") unevenSite
          = Job.on (setVersion ⟨0, ["package.json"]⟩ "2.0.0") unevenSite := by
  have ht : unevenSite.textAt ⟨0, ["package.json"]⟩ = .ok unevenDescriptor :=
    eq_ok_of_toOption (by decide +kernel)
  have hshape : (Json.ofDocument unevenDescriptor).toOption.any isUneven = true := by
    decide +kernel
  obtain ⟨v, hv, hshape⟩ := (Option.any_eq_true _ _).1 hshape
  obtain ⟨ms, rfl, hf⟩ := exists_of_isUneven hshape
  have hms := eq_ok_of_toOption hv
  obtain ⟨⟨l, content, after, stamped, -, -, hafter, hstamped, hset⟩, hlast⟩ :=
    setVersion_of_descriptor ht hms hf "2.0.0"
  have htext : (Job.on (setVersion ⟨0, ["package.json"]⟩ "2.0.0") unevenSite).2.textAt
      ⟨0, ["package.json"]⟩ = .ok stampedDescriptor := eq_ok_of_toOption (by decide +kernel)
  have he : after = stampedDescriptor := Except.ok.inj (hafter.symm.trans htext)
  rw [he] at hstamped
  exact ⟨htext, ⟨_, _, hms, hstamped, hset⟩, hlast "1.0.0"⟩

end Package
end Repin

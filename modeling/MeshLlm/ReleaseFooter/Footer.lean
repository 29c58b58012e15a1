import MeshLlm.Library.Bytes

/-! # The release footer of a binary

The signed payload and a footer of twenty-four bytes stand behind the executable: a
magic, a version, the length of the payload and a reserved zero. A file whose end looks
like a footer that was cut off or damaged is refused, not read as one without a footer.
-/
namespace MeshLlm.ReleaseFooter

abbrev Bytes := List UInt8

def embeddedReleaseFooterLen : ℕ := 24
/-- `MLATTEST` -/
def embeddedReleaseFooterMagic : Bytes := [0x4D,0x4C,0x41,0x54,0x54,0x45,0x53,0x54]
def embeddedReleaseFooterVersion : ℕ := 1

inductive EmbeddedReleaseFooterStatus
  | missing
  | valid
  | invalid
deriving DecidableEq, Repr

structure EmbeddedReleasePayloadSummary where
  artifactDigest : String
deriving DecidableEq, Repr

structure EmbeddedReleaseFooter where
  baseBytes : Bytes
  payloadBytes : Bytes
deriving DecidableEq, Repr

structure EmbeddedReleaseFooterVerification where
  status : EmbeddedReleaseFooterStatus
  footer : Option EmbeddedReleaseFooter
  error : Option String
deriving DecidableEq, Repr

inductive EmbeddedReleaseFooterError
  | truncated
  | badMagic
  | unsupportedVersion (version : ℕ)
  | nonZeroReserved (value : ℕ)
  | payloadLengthOverflow (length : ℕ)
deriving DecidableEq, Repr

def EmbeddedReleaseFooterError.text : EmbeddedReleaseFooterError → String
  | .truncated => "embedded release footer is truncated"
  | .badMagic => "embedded release footer magic is invalid"
  | .unsupportedVersion version => "embedded release footer version " ++ version.repr ++ " is unsupported"
  | .nonZeroReserved value => "embedded release footer reserved field must be 0, got " ++ value.repr
  | .payloadLengthOverflow length => "embedded release payload length " ++ length.repr ++ " exceeds binary size"

structure EmbeddedReleaseFooterFields where
  version : ℕ
  payloadLen : ℕ
  reserved : ℕ
deriving DecidableEq, Repr

def footerPrefixBytes : Bytes := embeddedReleaseFooterMagic ++ leBytes 4 embeddedReleaseFooterVersion

def parseEmbeddedReleaseFooterFields (footerBytes : Bytes) : EmbeddedReleaseFooterFields :=
  ⟨leValue (bytesAt footerBytes 8 4),leValue (bytesAt footerBytes 12 8),leValue (bytesAt footerBytes 20 4)⟩

/-- `{` -/
def openBrace : UInt8 := 0x7B
/-- `artifact_digest` -/
def artifactDigestKey : Bytes := [0x61,0x72,0x74,0x69,0x66,0x61,0x63,0x74,0x5F,0x64,0x69,0x67,0x65,0x73,0x74]

def isAsciiWhitespace (b : UInt8) : Bool := b ∈ [0x20,0x09,0x0A,0x0C,0x0D]

def trimAscii (bs : Bytes) : Bytes := ((bs.dropWhile isAsciiWhitespace).reverse.dropWhile isAsciiWhitespace).reverse

def looksLikeReleasePayload (payloadBytes : Bytes) : Bool :=
  let payloadBytes := trimAscii payloadBytes
  payloadBytes.head? = some openBrace && payloadBytes.tails.any fun window => artifactDigestKey.isPrefixOf window

/-- The last bytes, as many as a footer has. -/
def lastBytes (binaryBytes : Bytes) : Bytes := binaryBytes.drop (binaryBytes.length - embeddedReleaseFooterLen)

def looksLikeCorruptedFooter (binaryBytes : Bytes) : Bool :=
  let footerStart := binaryBytes.length - embeddedReleaseFooterLen
  let fields := parseEmbeddedReleaseFooterFields (lastBytes binaryBytes)
  let plausiblePayload := 0 < fields.payloadLen && fields.payloadLen ≤ footerStart &&
    looksLikeReleasePayload (bytesAt binaryBytes (footerStart - fields.payloadLen) fields.payloadLen)
  plausiblePayload && (fields.version = embeddedReleaseFooterVersion || fields.reserved = 0)

/-- An end of the file that a footer could begin with. -/
def truncatedFooter (ending : Bytes) : Bool :=
  if ending.length < embeddedReleaseFooterMagic.length then false
  else if ending.length < footerPrefixBytes.length then ending.isPrefixOf footerPrefixBytes
  else ending.take embeddedReleaseFooterMagic.length = embeddedReleaseFooterMagic || footerPrefixBytes.isPrefixOf ending

/-- Some end of the file, shorter than a footer, is one cut off. -/
def detectTruncatedFooterTail (binaryBytes : Bytes) : Bool :=
  let probeLen := min binaryBytes.length (embeddedReleaseFooterLen - 1)
  let tail := binaryBytes.drop (binaryBytes.length - probeLen)
  (List.range tail.length).any fun start => truncatedFooter (tail.drop start)

/-- A file whose end is not a footer. -/
def readWithoutFooter (binaryBytes : Bytes) : Except EmbeddedReleaseFooterError (Option EmbeddedReleaseFooter) :=
  if detectTruncatedFooterTail binaryBytes then .error .truncated else .ok none

def readEmbeddedReleaseFooter (binaryBytes : Bytes) : Except EmbeddedReleaseFooterError (Option EmbeddedReleaseFooter) :=
  if binaryBytes.length < embeddedReleaseFooterLen then readWithoutFooter binaryBytes
  else
    let footerStart := binaryBytes.length - embeddedReleaseFooterLen
    let footerBytes := lastBytes binaryBytes
    if footerBytes.take 8 ≠ embeddedReleaseFooterMagic then
      if looksLikeCorruptedFooter binaryBytes then .error .badMagic else readWithoutFooter binaryBytes
    else
      let fields := parseEmbeddedReleaseFooterFields footerBytes
      if fields.version ≠ embeddedReleaseFooterVersion then .error (.unsupportedVersion fields.version)
      else if fields.reserved ≠ 0 then .error (.nonZeroReserved fields.reserved)
      else if footerStart < fields.payloadLen then .error (.payloadLengthOverflow fields.payloadLen)
      else
        let payloadStart := footerStart - fields.payloadLen
        .ok (some ⟨binaryBytes.take payloadStart,bytesAt binaryBytes payloadStart fields.payloadLen⟩)

def stripEmbeddedReleaseFooter (binaryBytes : Bytes) : Except EmbeddedReleaseFooterError Bytes :=
  (readEmbeddedReleaseFooter binaryBytes).map fun footer => footer.elim binaryBytes EmbeddedReleaseFooter.baseBytes

def footerBytes (payloadLen : ℕ) : Bytes :=
  embeddedReleaseFooterMagic ++ (leBytes 4 embeddedReleaseFooterVersion ++ (leBytes 8 payloadLen ++ leBytes 4 0))

def stampEmbeddedReleasePayload (binaryBytes payloadBytes : Bytes) : Except EmbeddedReleaseFooterError Bytes :=
  (stripEmbeddedReleaseFooter binaryBytes).map fun baseBytes => baseBytes ++ payloadBytes ++ footerBytes payloadBytes.length

/-- The digest of a base, by a given hash in hexadecimal text. -/
def baseDigest (sha256Hex : Bytes → String) (baseBytes : Bytes) : String := "sha256:" ++ sha256Hex baseBytes

def verifyEmbeddedReleaseFooter (sha256Hex : Bytes → String) (verifyPayload : Bytes → Except String EmbeddedReleasePayloadSummary)
    (binaryBytes : Bytes) : EmbeddedReleaseFooterVerification :=
  match readEmbeddedReleaseFooter binaryBytes with
  | .ok none => ⟨.missing,none,none⟩
  | .error error => ⟨.invalid,none,some error.text⟩
  | .ok (some footer) =>
    match verifyPayload footer.payloadBytes with
    | .error error => ⟨.invalid,some footer,some error⟩
    | .ok summary =>
      let baseDigest := baseDigest sha256Hex footer.baseBytes
      if summary.artifactDigest ≠ baseDigest then
        ⟨.invalid,some footer,
          some ("artifact digest mismatch: expected " ++ summary.artifactDigest ++ ", computed " ++ baseDigest)⟩
      else ⟨.valid,some footer,none⟩

end MeshLlm.ReleaseFooter

/-
Media types of files, known by the ends of their names.

The end of a name is what stands from its last dot on, dots at its start left
out.  An end that stands for two, such as `.tgz`, is taken apart first; then an
end that names a compression is dropped, so that the type is that of the
compressed file.  Only ends of compressions are told apart by their case.

A name that begins with a scheme, any characters before its first colon, is read as
an address: the type is that of what stands behind the scheme.  Under the scheme
`data` that is known only if a comma ends it, and is then that of plain text.
-/
import Montage.Text.CaseMap

namespace Montage.MediaType

/-- The types with the ends of the names of their files. -/
def table : List (String × List String) := [
  ("application/javascript", [".js", ".mjs"]),
  ("application/json", [".json"]),
  ("application/manifest+json", [".webmanifest"]),
  ("application/msword", [".doc", ".dot", ".wiz"]),
  ("application/n-quads", [".nq"]),
  ("application/n-triples", [".nt"]),
  ("application/octet-stream", [".bin", ".a", ".dll", ".exe", ".o", ".obj", ".so"]),
  ("application/oda", [".oda"]),
  ("application/pdf", [".pdf"]),
  ("application/pkcs7-mime", [".p7c"]),
  ("application/postscript", [".ps", ".ai", ".eps"]),
  ("application/trig", [".trig"]),
  ("application/vnd.apple.mpegurl", [".m3u", ".m3u8"]),
  ("application/vnd.ms-excel", [".xls", ".xlb"]),
  ("application/vnd.ms-powerpoint", [".ppt", ".pot", ".ppa", ".pps", ".pwz"]),
  ("application/wasm", [".wasm"]),
  ("application/x-bcpio", [".bcpio"]),
  ("application/x-cpio", [".cpio"]),
  ("application/x-csh", [".csh"]),
  ("application/x-dvi", [".dvi"]),
  ("application/x-gtar", [".gtar"]),
  ("application/x-hdf", [".hdf"]),
  ("application/x-hdf5", [".h5"]),
  ("application/x-latex", [".latex"]),
  ("application/x-mif", [".mif"]),
  ("application/x-netcdf", [".cdf", ".nc"]),
  ("application/x-pkcs12", [".p12", ".pfx"]),
  ("application/x-pn-realaudio", [".ram"]),
  ("application/x-python-code", [".pyc", ".pyo"]),
  ("application/x-sh", [".sh"]),
  ("application/x-shar", [".shar"]),
  ("application/x-shockwave-flash", [".swf"]),
  ("application/x-sv4cpio", [".sv4cpio"]),
  ("application/x-sv4crc", [".sv4crc"]),
  ("application/x-tar", [".tar"]),
  ("application/x-tcl", [".tcl"]),
  ("application/x-tex", [".tex"]),
  ("application/x-texinfo", [".texi", ".texinfo"]),
  ("application/x-troff", [".roff", ".t", ".tr"]),
  ("application/x-troff-man", [".man"]),
  ("application/x-troff-me", [".me"]),
  ("application/x-troff-ms", [".ms"]),
  ("application/x-ustar", [".ustar"]),
  ("application/x-wais-source", [".src"]),
  ("application/xml", [".xsl", ".rdf", ".wsdl", ".xpdl"]),
  ("application/zip", [".zip"]),
  ("audio/3gpp", [".3gp", ".3gpp"]),
  ("audio/3gpp2", [".3g2", ".3gpp2"]),
  ("audio/aac", [".aac", ".adts", ".loas", ".ass"]),
  ("audio/basic", [".au", ".snd"]),
  ("audio/mpeg", [".mp3", ".mp2"]),
  ("audio/opus", [".opus"]),
  ("audio/x-aiff", [".aif", ".aifc", ".aiff"]),
  ("audio/x-pn-realaudio", [".ra"]),
  ("audio/x-wav", [".wav"]),
  ("image/avif", [".avif"]),
  ("image/bmp", [".bmp"]),
  ("image/gif", [".gif"]),
  ("image/ief", [".ief"]),
  ("image/jpeg", [".jpg", ".jpe", ".jpeg"]),
  ("image/heic", [".heic"]),
  ("image/heif", [".heif"]),
  ("image/png", [".png"]),
  ("image/svg+xml", [".svg"]),
  ("image/tiff", [".tiff", ".tif"]),
  ("image/vnd.microsoft.icon", [".ico"]),
  ("image/x-cmu-raster", [".ras"]),
  ("image/x-portable-anymap", [".pnm"]),
  ("image/x-portable-bitmap", [".pbm"]),
  ("image/x-portable-graymap", [".pgm"]),
  ("image/x-portable-pixmap", [".ppm"]),
  ("image/x-rgb", [".rgb"]),
  ("image/x-xbitmap", [".xbm"]),
  ("image/x-xpixmap", [".xpm"]),
  ("image/x-xwindowdump", [".xwd"]),
  ("message/rfc822", [".eml", ".mht", ".mhtml", ".nws"]),
  ("text/css", [".css"]),
  ("text/csv", [".csv"]),
  ("text/html", [".html", ".htm"]),
  ("text/n3", [".n3"]),
  ("text/plain", [".txt", ".bat", ".c", ".h", ".ksh", ".pl", ".srt"]),
  ("text/richtext", [".rtx"]),
  ("text/tab-separated-values", [".tsv"]),
  ("text/vtt", [".vtt"]),
  ("text/x-python", [".py"]),
  ("text/x-setext", [".etx"]),
  ("text/x-sgml", [".sgm", ".sgml"]),
  ("text/x-vcard", [".vcf"]),
  ("text/xml", [".xml"]),
  ("video/mp4", [".mp4"]),
  ("video/mpeg", [".mpeg", ".m1v", ".mpa", ".mpe", ".mpg"]),
  ("video/quicktime", [".mov", ".qt"]),
  ("video/webm", [".webm"]),
  ("video/x-msvideo", [".avi"]),
  ("video/x-sgi-movie", [".movie"])]

/-- Ends that stand for two. -/
def pairs : List (String × String) := [
  (".svgz", ".svg.gz"), (".tgz", ".tar.gz"), (".taz", ".tar.gz"), (".tz", ".tar.gz"),
  (".tbz2", ".tar.bz2"), (".txz", ".tar.xz")]

/-- Ends that name a compression. -/
def compressions : List String := [".gz", ".Z", ".bz2", ".xz", ".br"]

/-- The type of a file that is not known. -/
def unknown : String := "application/octet-stream"

/-- A name parted at its last dot, unless nothing but dots stands before it. -/
def splitEnd (name : List Char) : List Char × List Char :=
  let r := name.reverse
  let stem := ((r.dropWhile (· != '.')).drop 1).reverse
  if stem.all (· == '.') then (name, []) else (stem, name.drop stem.length)

/-- The parts of a name, an end that stands for two taken apart. -/
def splitPair (name : List Char) : List Char × List Char :=
  let (stem, ending) := splitEnd name
  match pairs.lookup (Text.lower (String.ofList ending)) with
  | some two => splitEnd (stem ++ two.toList)
  | none => (stem, ending)

/-- The type for an end. -/
def ofEnd? (ending : List Char) : Option String :=
  let e := Text.lower (String.ofList ending)
  (table.find? fun row => row.2.contains e).map (·.1)

/-! ## Schemes -/

/-- The scheme of a name in lower case, if it has one, and what stands behind it. -/
def scheme? (name : List Char) : Option (String × List Char) :=
  let word := name.takeWhile fun c => c != ':' && c != '/'
  match word, name.drop word.length with
  | _ :: _, ':' :: rest => some (Text.lower (String.ofList word), rest)
  | _, _ => none

/-! ## Types -/

/-- The type for a path, if it is known. -/
def ofPath? (path : List Char) : Option String :=
  let (stem, ending) := splitPair path
  ofEnd? (if compressions.contains (String.ofList ending) then (splitEnd stem).2 else ending)

/-- The type of the file with a name, if it is known. -/
def ofName? (name : String) : Option String :=
  match scheme? name.toList with
  | none => ofPath? name.toList
  | some ("data", path) => if path.contains ',' then some "text/plain" else none
  | some (_, path) => ofPath? path

/-- The type of the file with a name. -/
def ofName (name : String) : String := (ofName? name).getD unknown

end Montage.MediaType

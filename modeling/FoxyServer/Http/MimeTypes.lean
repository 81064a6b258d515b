import FoxyServer.Library.Bytes

namespace Foxy

namespace mimeTypes

def mappings : List (Bytes × Bytes) :=
  [ (Bytes.lit "gif", Bytes.lit "image/gif"),
    (Bytes.lit "htm", Bytes.lit "text/html"),
    (Bytes.lit "css", Bytes.lit "text/css"),
    (Bytes.lit "html", Bytes.lit "text/html"),
    (Bytes.lit "jpg", Bytes.lit "image/jpeg"),
    (Bytes.lit "jpeg", Bytes.lit "image/jpeg"),
    (Bytes.lit "png", Bytes.lit "image/png"),
    (Bytes.lit "txt", Bytes.lit "text/plain"),
    (Bytes.lit "zip", Bytes.lit "application/zip"),
    (Bytes.lit "avi", Bytes.lit "video/x-msvideo"),
    (Bytes.lit "csv", Bytes.lit "text/csv"),
    (Bytes.lit "doc", Bytes.lit "application/msword"),
    (Bytes.lit "docx",
      Bytes.lit "application/vnd.openxmlformats-officedocument.wordprocessingml.document"),
    (Bytes.lit "gz", Bytes.lit "application/gzip"),
    (Bytes.lit "json", Bytes.lit "application/json"),
    (Bytes.lit "rar", Bytes.lit "application/vnd.rar"),
    (Bytes.lit "tar", Bytes.lit "application/x-tar"),
    (Bytes.lit "7z", Bytes.lit "application/x-7z-compressed") ]

def extensionToType (extension : Bytes) : Bytes :=
  match mappings.find? (fun m => m.1 = extension) with
  | some m => m.2
  | none => Bytes.lit "application/octet-stream"

end mimeTypes

end Foxy

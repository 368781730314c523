import RelayKeeper.Document.Lines
import RelayKeeper.Files.Path

/-!
# The service unit

The supervisor's unit file, which runs the relay in a container.
-/

namespace RelayKeeper.Document

structure ServiceUnit where
  name : String
  image : String
  workDir : Path
  keysDir : Path
  port : UInt16
  address : String
  deriving DecidableEq, Repr

def ServiceUnit.lines (d : ServiceUnit) : List String :=
  let port := toString d.port
  [ "[Unit]",
    "Description=tmate-ssh-server",
    "After=docker.service",
    "Requires=docker.service",
    "",
    "[Service]",
    "WorkingDirectory=" ++ d.workDir.text,
    "ExecStartPre=-/usr/bin/docker rm -f " ++ d.name,
    "ExecStart=/usr/bin/docker run --rm --name " ++ d.name ++ " \\",
    "    --cap-add SYS_ADMIN \\",
    "    -v " ++ d.keysDir.text ++ ":/keys \\",
    "    -e SSH_KEYS_PATH=/keys \\",
    "    -p " ++ port ++ ":" ++ port ++ " \\",
    "    -e SSH_PORT_LISTEN=" ++ port ++ " \\",
    "    -e SSH_HOSTNAME=" ++ d.address ++ " \\",
    "    -e USE_PROXY_PROTOCOL=0 \\",
    "    " ++ d.image,
    "ExecStop=/usr/bin/docker stop " ++ d.name,
    "Restart=always",
    "RestartSec=5",
    "",
    "[Install]",
    "WantedBy=multi-user.target" ]

def ServiceUnit.render (d : ServiceUnit) : String :=
  ofLines d.lines

end RelayKeeper.Document
